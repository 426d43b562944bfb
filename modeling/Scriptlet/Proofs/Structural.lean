import Scriptlet.Proofs.Equality.Answers

/-!
# Structural equality

On heaps without NaN whose hashes have no containers for keys, a comparison always answers, and it
answers whether the two values are bisimilar, whatever they hold and whether or not they hold
themselves.  On heaps in general two values compare alike both ways, as long as no hash on the way
has two keys that are alike; a program that changes the keys of a hash shows that without this
condition one hash can equal another that does not equal it.
-/

namespace Scriptlet

variable {σ : Type}

/-- Whether a value is a number that is NaN. -/
def Value.IsNaN : Value → Prop
  | num x => x.isNaN
  | _ => False

namespace Heap

variable {h : Heap} {a b c v w : Value} {r r' : Bool}

/-! ### Keys that are found different -/

/-- What is found inside a value ranks no higher than it. -/
theorem rank_le_of_leads (hw : h.Leads v w) :
  h.rank w ≤ h.rank v
  := by
  induction hw with
  | refl => exact Nat.le_refl _
  | tail _ hstep ih => exact Nat.le_trans (rank_le_of_holds hstep) ih

/-- Where keys are founded, keys that are found different are not alike: by induction on the number
of hashes that a value leads to, which is smaller for a key. -/
theorem KeysFounded.distinctKeys (hv : h.KeysFounded v)
    (hkeys : ∀ i, h.Leads v (.hash i) →
      (h.hash i).toList.Pairwise fun x y => h.equal? x.1 y.1 = some false) :
  h.DistinctKeys v
  := by
  induction hrank : h.rank v using Nat.strong_induction_on generalizing v with
  | _ k ih =>
      intro i hi
      have hfounded : h.KeysFounded (.hash i) :=
        fun j hj => hv j (Relation.ReflTransGen.trans hi hj)
      have hkey (x : Value × Value) (hx : x ∈ (h.hash i).toList) : h.DistinctKeys x.1 := by
        have hlead : h.Leads v x.1 := Relation.ReflTransGen.tail hi (.key hx)
        refine ih (h.rank x.1) ?_ (fun j hj => ?_) (fun j hj => ?_) rfl
        · rw [← hrank]
          exact Nat.lt_of_lt_of_le (rank_key_lt hfounded hx) (rank_le_of_leads hi)
        · exact hv j (Relation.ReflTransGen.trans hlead hj)
        · exact hkeys j (Relation.ReflTransGen.trans hlead hj)
      refine (hkeys i hi).imp_of_mem ?_
      intro x y hx hy hne halike
      exact equalWithin_ne_false (hkey x hx) (hkey y hy) halike hne

/-! ### Plain heaps -/

/-- A heap that holds no NaN, and whose hashes have keys that are not containers and are found
different from one another. -/
structure Plain (h : Heap) : Prop where
  numbers : ∀ v w, h.Holds v w → ¬ w.IsNaN
  keys : ∀ i, ∀ x ∈ (h.hash i).toList, ∀ c : Container, x.1 ≠ c.value
  distinct : ∀ i, (h.hash i).toList.Pairwise fun x y => h.equal? x.1 y.1 = some false

namespace Plain

/-- No key of a plain heap leads back to its hash, for it is no container. -/
theorem keysFounded (hh : h.Plain) (v : Value) :
  h.KeysFounded v
  := by
  apply keysFounded_of_keys
  intro i x hx w hw
  cases hkey : x.1
  case array j => exact hh.keys i x hx (.array j) hkey
  case hash j => exact hh.keys i x hx (.hash j) hkey
  all_goals
    rw [hkey] at hw
    cases hw

/-- No two keys of a plain heap are alike. -/
theorem distinctKeys (hh : h.Plain) (v : Value) :
  h.DistinctKeys v
  := (hh.keysFounded v).distinctKeys fun i _ => hh.distinct i

/-- Where there is no NaN, a value matches itself if what it holds is related to itself. -/
theorem matches_self (hh : h.Plain) (ha : ¬ a.IsNaN) {R : Value → Value → Prop}
    (hR : ∀ w, ¬ w.IsNaN → R w w) :
  h.Matches R a a
  := by
  cases a
  case array i =>
    exact List.forall₂_same.mpr fun w hw => hR w (hh.numbers _ _ (.element hw))
  case hash i =>
    have hself (x : Value × Value) (hx : x ∈ (h.hash i).toList) : R x.1 x.1 ∧ R x.2 x.2 :=
      ⟨hR _ (hh.numbers _ _ (.key hx)), hR _ (hh.numbers _ _ (.value hx))⟩
    exact ⟨fun x hx => ⟨x, hx, hself x hx⟩, fun x hx => ⟨x, hx, hself x hx⟩⟩
  case num x =>
    refine Float.beq_self_iff.mpr fun hx => ha ?_
    change x.isNaN = true
    rw [Float.isNaN_eq_decide_eq_nan]
    exact decide_eq_true hx
  case null => exact trivial
  all_goals exact rfl

/-- No container is NaN. -/
theorem not_isNaN (c : Container) :
  ¬ c.value.IsNaN
  := by
  cases c
  all_goals exact id

/-- Without NaN the containers that are the same need no leave to be bisimilar. -/
theorem alike_iff (hh : h.Plain) :
  h.Alike a b ↔ h.Bisimilar a b
  := by
  constructor
  · intro hab
    refine ⟨fun x y => h.Alike x y ∨ (x = y ∧ ¬ x.IsNaN), ?_, .inl hab⟩
    have hself (x : Value) (hx : ¬ x.IsNaN) :
        h.Matches (fun x y => h.Alike x y ∨ (x = y ∧ ¬ x.IsNaN)) x x :=
      hh.matches_self hx fun w hw => .inr ⟨rfl, hw⟩
    rintro x y (hxy | ⟨rfl, hx⟩)
    · rcases hxy.eq_or_matches with ⟨c, rfl, rfl⟩ | hmatch
      · exact hself _ (not_isNaN c)
      · exact hmatch.mono fun _ _ => .inl
    · exact hself x hx
  · intro hab
    exact ⟨h.Bisimilar, fun _ _ hxy => .inr hxy.matches, hab⟩

/-- Every value of a plain heap that is not NaN is like itself. -/
theorem alike_self (hh : h.Plain) (ha : ¬ a.IsNaN) :
  h.Alike a a
  := hh.alike_iff.mpr ⟨fun x y => x = y ∧ ¬ x.IsNaN, by
    rintro x _ ⟨rfl, hx⟩
    exact hh.matches_self hx fun w hw => ⟨rfl, hw⟩, rfl, ha⟩

/-- Every comparison on a plain heap has an answer, which says whether the values are alike. -/
theorem exists_answer (hh : h.Plain) (a b : Value) :
  ∃ r, h.equal? a b = some r ∧ (r = true ↔ h.Alike a b)
  := by
  obtain ⟨r, hr⟩ := exists_equal? (.inl (hh.keysFounded a)) (b := b)
  exact ⟨r, hr, equal?_eq_some_iff_alike (hh.distinctKeys a) (hh.distinctKeys b) hr⟩

/-- Values of a plain heap are found equal exactly if they are alike. -/
theorem equal?_eq_true_iff (hh : h.Plain) :
  h.equal? a b = some true ↔ h.Alike a b
  := by
  obtain ⟨r, hr, halike⟩ := hh.exists_answer a b
  rw [hr, Option.some_inj]
  exact halike

end Plain

/-- On plain heaps every comparison answers whether the two values are bisimilar, and equality is
reflexive, but for NaN, symmetric and transitive. -/
theorem equal?_structural (hh : h.Plain) :
  (∀ a b, ∃ r, h.equal? a b = some r ∧ (r = true ↔ h.Bisimilar a b))
  ∧ (∀ a, ¬ a.IsNaN → h.equal? a a = some true)
  ∧ (∀ a b, h.equal? a b = some true → h.equal? b a = some true)
  ∧ ∀ a b c, h.equal? a b = some true → h.equal? b c = some true → h.equal? a c = some true
  := by
  simp only [hh.equal?_eq_true_iff]
  refine ⟨fun a b => ?_, fun a => hh.alike_self, fun a b => Alike.symm, fun a b c => Alike.trans⟩
  obtain ⟨r, hr, halike⟩ := hh.exists_answer a b
  exact ⟨r, hr, halike.trans hh.alike_iff⟩

/-- The two hashes that hold themselves are plain. -/
theorem plain_entwined :
  entwined.Plain
  where
  numbers := by
    rintro v w (@⟨i, _, hw⟩ | @⟨i, _, hw⟩ | @⟨i, _, hw⟩)
    all_goals
      rcases i with _ | _ | i
      all_goals simp_all [entwined, array, hash, Value.IsNaN]
  keys := by
    intro i x hx c
    rcases i with _ | _ | i
    all_goals
      cases c
      all_goals simp_all [entwined, hash, Container.value]
  distinct := by
    intro i
    rcases i with _ | _ | i
    all_goals simp [entwined, hash]

/-- Two hashes that hold themselves are equal because they are bisimilar. -/
theorem equal?_structural_entwined :
  entwined.Plain ∧ entwined.Bisimilar (.hash 0) (.hash 1)
  := by
  obtain ⟨hanswer, -⟩ := equal?_structural plain_entwined
  obtain ⟨r, hr, hbisimilar⟩ := hanswer (.hash 0) (.hash 1)
  have htrue : entwined.equal? (.hash 0) (.hash 1) = some true := by decide +kernel
  rw [htrue, Option.some_inj] at hr
  exact ⟨plain_entwined, hbisimilar.mp hr.symm⟩

/-! ### Both ways round -/

/-- Two values compare the same way round and the other, if both comparisons end and no hash that
one of the two leads to has two keys that are alike. -/
theorem equal?_comm (ha : h.DistinctKeys a) (hb : h.DistinctKeys b) (hr : h.equal? a b = some r)
    (hr' : h.equal? b a = some r') :
  r = r'
  := by
  have hab := equal?_eq_some_iff_alike ha hb hr
  have hba := equal?_eq_some_iff_alike hb ha hr'
  rw [Bool.eq_iff_iff, hab, hba]
  exact ⟨Alike.symm, Alike.symm⟩

/-- Two hashes, each of which has an array among its keys that is empty. -/
def emptied : Heap :=
  ⟨#[#[], #[]], #[#[(.array 0, .bool true), (.str "x", .null)],
    #[(.str "x", .null), (.array 1, .bool true)]], #[]⟩

/-- The keys of the two hashes differ: an array and a text each. -/
theorem distinctKeys_emptied (v : Value) :
  emptied.DistinctKeys v
  := by
  apply KeysFounded.distinctKeys
  · apply keysFounded_of_keys
    intro i x hx w hw
    have hkey : x.1 = .array 0 ∨ x.1 = .array 1 ∨ x.1 = .str "x" := by
      rcases i with _ | _ | i
      all_goals simp only [emptied, hash] at hx
      · rcases List.mem_pair.mp hx with rfl | rfl
        · exact .inl rfl
        · exact .inr (.inr rfl)
      · rcases List.mem_pair.mp hx with rfl | rfl
        · exact .inr (.inr rfl)
        · exact .inr (.inl rfl)
      · cases hx
    rcases hkey with hkey | hkey | hkey
    all_goals rw [hkey] at hw
    · rcases hw with ⟨hw⟩
      simp [emptied, array] at hw
    · rcases hw with ⟨hw⟩
      simp [emptied, array] at hw
    · cases hw
  · intro i _
    rcases i with _ | _ | i
    · decide +kernel
    · decide +kernel
    · simp [emptied, hash]

/-- Two hashes with an empty array among their keys, compared both ways round. -/
theorem equal?_comm_emptied :
  emptied.DistinctKeys (.hash 0) ∧ emptied.DistinctKeys (.hash 1)
  ∧ ∃ r, emptied.equal? (.hash 0) (.hash 1) = some r ∧ emptied.equal? (.hash 1) (.hash 0) = some r
  := by
  have hfirst := distinctKeys_emptied (.hash 0)
  have hsecond := distinctKeys_emptied (.hash 1)
  obtain ⟨r, hr⟩ : ∃ r, emptied.equal? (.hash 0) (.hash 1) = some r := ⟨true, by decide +kernel⟩
  obtain ⟨r', hr'⟩ : ∃ r, emptied.equal? (.hash 1) (.hash 0) = some r := ⟨true, by decide +kernel⟩
  obtain rfl := equal?_comm hfirst hsecond hr hr'
  exact ⟨hfirst, hsecond, r, hr, hr'⟩

end Heap

/-- Takes the only elements out of the two keys of a hash, whereupon it has one key twice, and
compares the two ways of comparing it with a hash that has this key and another one. -/
def doubledKey : String :=
  "let p = [1]; let q = [2]; let r = []; let s = [3]; "
    ++ "let h = \x7b(p): 0, (q): 0\x7d; let g = \x7b(r): 0, (s): 0\x7d; "
    ++ "__builtin_pop(p); __builtin_pop(q); (h == g) == (g == h)"

/-- Whether a run has come to `false`, with a hash in its heap that equals another one that does not
equal it. -/
def cameToDiffer : EStateM.Result Unwind (Machine σ) Value → Bool
  | .ok (.bool false) m =>
    m.heap.equal? (.hash 0) (.hash 1) = some true ∧ m.heap.equal? (.hash 1) (.hash 0) = some false
  | _ => false

/-- A program in which one hash equals another that does not equal it. -/
theorem exists_not_equal?_comm :
  ∃ text, (Program.parse text "main.tiny").2 = []
  ∧ ∃ fuel m, Run.alone fuel text (.initial (.ofLines [])) = .ok (.bool false) m
  ∧ ∃ a b, m.heap.equal? a b = some true ∧ m.heap.equal? b a = some false
  := by
  have hdiffer : cameToDiffer (Run.alone 40 doubledKey (.initial (.ofLines []))) = true := by
    decide +kernel
  use doubledKey
  constructor
  · apply List.isEmpty_iff.mp
    decide +kernel
  · use 40
    rcases hrun : Run.alone 40 doubledKey (.initial (.ofLines [])) with ⟨v, m⟩ | ⟨u, m⟩
    · rw [hrun] at hdiffer
      unfold cameToDiffer at hdiffer
      split at hdiffer
      · rename_i heq
        cases heq
        exact ⟨m, rfl, .hash 0, .hash 1, of_decide_eq_true hdiffer⟩
      · cases hdiffer
    · rw [hrun] at hdiffer
      cases hdiffer

end Scriptlet
