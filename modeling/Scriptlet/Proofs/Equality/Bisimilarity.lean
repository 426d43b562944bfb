import Mathlib
import Scriptlet.Proofs.Equality.Nesting

/-!
# Bisimilar values

Two values are bisimilar if no observation tells them apart: arrays element by element, hashes as
maps without an order, and everything else by what it is.  Values may hold themselves, so this is
the largest relation that a look at any of its pairs does not contradict.

A comparison goes further in one respect, since a container equals itself whatever it holds; the
largest relation that grants this is `Heap.Alike`.  A comparison that is under way also grants the
pairs of containers around it.  Nothing is lost by that in the end: a pair that matches once it is
granted need not be granted (`Heap.AlikeIf.of_granted`).
-/

namespace Scriptlet

/-! ### Values that hold no others -/

/-- Native functions of one name are the same. -/
theorem Native.name_injective :
  Function.Injective name
  := by
  intro f g
  cases f
  all_goals
    cases g
    all_goals decide

namespace Value

/-- Whether two values that hold no others agree: numbers, strings and booleans by value, functions
by identity, native functions by name and errors by message. -/
def Agrees : Value → Value → Prop
  | null, null => True
  | bool x, bool y => x = y
  | num x, num y => x == y
  | str s, str t => s = t
  | func i, func j => i = j
  | native f, native g => f.name = g.name
  | error e, error f => e.message = f.message
  | _, _ => False

variable {a b c : Value}

/-- If one value agrees with another, then the other agrees with it. -/
theorem Agrees.symm (hab : a.Agrees b) :
  b.Agrees a
  := by
  cases a
  case num x =>
    cases b
    case num y =>
      obtain ⟨hx, hy, hxy⟩ := Float.beq_iff_ne_nan_and_eq.mp hab
      refine Float.beq_iff_ne_nan_and_eq.mpr ⟨hy, hx, ?_⟩
      rcases hxy with rfl | ⟨rfl, rfl⟩ | ⟨rfl, rfl⟩
      · exact .inl rfl
      · exact .inr (.inr ⟨rfl, rfl⟩)
      · exact .inr (.inl ⟨rfl, rfl⟩)
    all_goals exact hab.elim
  all_goals
    cases b
    all_goals first | exact hab.elim | exact trivial | exact Eq.symm hab

/-- Values that agree with the same one agree. -/
theorem Agrees.trans (hab : a.Agrees b) (hbc : b.Agrees c) :
  a.Agrees c
  := by
  cases a
  case num x =>
    cases b
    case num y =>
      cases c
      case num z =>
        obtain ⟨hx, -, hxy⟩ := Float.beq_iff_ne_nan_and_eq.mp hab
        obtain ⟨-, hz, hyz⟩ := Float.beq_iff_ne_nan_and_eq.mp hbc
        refine Float.beq_iff_ne_nan_and_eq.mpr ⟨hx, hz, ?_⟩
        grind
      all_goals exact hbc.elim
    all_goals exact hab.elim
  all_goals
    cases b
    all_goals first
      | exact hab.elim
      | cases c
        all_goals first | exact hbc.elim | exact trivial | exact Eq.trans hab hbc

end Value

/-! ### A look at two values -/

namespace Heap

variable (h : Heap)

/-- Whether each pair of hash `i` has a related key with a related value in hash `j`. -/
def Covers (R : Value → Value → Prop) (i j : Nat) : Prop :=
  ∀ x ∈ (h.hash i).toList, ∃ y ∈ (h.hash j).toList, R x.1 y.1 ∧ R x.2 y.2

/-- Whether a look at two values finds them to have related parts: arrays of one length with
related elements, hashes with related keys that have related values, or values that agree. -/
def Matches (R : Value → Value → Prop) : Value → Value → Prop
  | .array i, .array j => List.Forall₂ R (h.array i).toList (h.array j).toList
  | .hash i, .hash j => h.Covers R i j ∧ h.Covers (flip R) j i
  | a, b => a.Agrees b

variable {h} {R S : Value → Value → Prop} {a b c : Value} {i j k : Nat}

/-- What covers a hash by a relation covers it by a weaker one. -/
theorem Covers.mono (hRS : ∀ x y, R x y → S x y) (hR : h.Covers R i j) :
  h.Covers S i j
  := by
  intro x hx
  obtain ⟨y, hy, hkey, hvalue⟩ := hR x hx
  exact ⟨y, hy, hRS _ _ hkey, hRS _ _ hvalue⟩

/-- Hashes that cover each other in a row cover the last one by both relations in a row. -/
theorem Covers.comp (hR : h.Covers R i j) (hS : h.Covers S j k) :
  h.Covers (Relation.Comp R S) i k
  := by
  intro x hx
  obtain ⟨y, hy, hkey, hvalue⟩ := hR x hx
  obtain ⟨z, hz, hkey', hvalue'⟩ := hS y hy
  exact ⟨z, hz, ⟨_, hkey, hkey'⟩, ⟨_, hvalue, hvalue'⟩⟩

/-- Two values are two arrays or two hashes, or neither a look nor a comparison goes further than to
the two themselves. -/
theorem pair_cases (h : Heap) (a b : Value) :
  (∃ i j, a = .array i ∧ b = .array j) ∨ (∃ i j, a = .hash i ∧ b = .hash j)
    ∨ (∀ R, h.Matches R a b = a.Agrees b)
      ∧ ∀ n seen, ∃ r, h.equalWithin (n + 1) seen a b = some r ∧ (r = true ↔ a.Agrees b)
  := by
  cases a
  case array i =>
    cases b
    case array j => exact .inl ⟨i, j, rfl, rfl⟩
    all_goals exact .inr (.inr ⟨fun _ => rfl, fun _ _ => ⟨_, rfl, by simp [Value.Agrees]⟩⟩)
  case hash i =>
    cases b
    case hash j => exact .inr (.inl ⟨i, j, rfl, rfl⟩)
    all_goals exact .inr (.inr ⟨fun _ => rfl, fun _ _ => ⟨_, rfl, by simp [Value.Agrees]⟩⟩)
  all_goals
    cases b
    all_goals
      refine .inr (.inr ⟨fun _ => rfl, fun _ _ => ⟨_, rfl, ?_⟩⟩)
      simp [Value.Agrees, Native.name_injective.eq_iff]

/-- Values that match by a relation match by a weaker one. -/
theorem Matches.mono (hRS : ∀ x y, R x y → S x y) (hR : h.Matches R a b) :
  h.Matches S a b
  := by
  rcases h.pair_cases a b with ⟨i, j, rfl, rfl⟩ | ⟨i, j, rfl, rfl⟩ | ⟨hlook, -⟩
  · exact List.Forall₂.imp hRS hR
  · exact ⟨hR.1.mono hRS, hR.2.mono fun x y => hRS y x⟩
  · rw [hlook] at hR ⊢
    exact hR

/-- Values match the other way round by the relation the other way round. -/
theorem Matches.flip (hR : h.Matches R a b) :
  h.Matches (flip R) b a
  := by
  rcases h.pair_cases a b with ⟨i, j, rfl, rfl⟩ | ⟨i, j, rfl, rfl⟩ | ⟨hlook, -⟩
  · exact List.Forall₂.flip hR
  · exact ⟨hR.2, hR.1⟩
  · rw [hlook] at hR
    rcases h.pair_cases b a with ⟨i, j, rfl, rfl⟩ | ⟨i, j, rfl, rfl⟩ | ⟨hlook', -⟩
    · exact hR.elim
    · exact hR.elim
    · rw [hlook']
      exact hR.symm

/-- Lists that are related in a row are related by both relations in a row. -/
theorem forall₂_comp {l₁ l₂ l₃ : List Value} (hR : List.Forall₂ R l₁ l₂)
    (hS : List.Forall₂ S l₂ l₃) :
  List.Forall₂ (Relation.Comp R S) l₁ l₃
  := by
  induction hR generalizing l₃ with
  | nil =>
      cases hS
      exact .nil
  | cons hx _ ih =>
      cases hS with
      | cons hy hrest => exact .cons ⟨_, hx, hy⟩ (ih hrest)

/-- Values that match in a row match by both relations in a row. -/
theorem Matches.comp (hR : h.Matches R a b) (hS : h.Matches S b c) :
  h.Matches (Relation.Comp R S) a c
  := by
  rcases h.pair_cases a b with ⟨i, j, rfl, rfl⟩ | ⟨i, j, rfl, rfl⟩ | ⟨hlook, -⟩
  · cases c
    case array k => exact forall₂_comp hR hS
    all_goals exact hS.elim
  · cases c
    case hash k =>
      refine ⟨hR.1.comp hS.1, (hS.2.comp hR.2).mono ?_⟩
      rintro x z ⟨y, hxy, hyz⟩
      exact ⟨y, hyz, hxy⟩
    all_goals exact hS.elim
  · rw [hlook] at hR
    cases b
    case array | hash =>
      cases a
      all_goals exact hR.elim
    all_goals
      have hac := hR.trans hS
      cases a
      all_goals first | exact hR.elim | exact hac

/-! ### Largest relations -/

/-- Whether two values are the same container, or two containers that are under comparison. -/
def Granted (seen : List (Container × Container)) (a b : Value) : Prop :=
  ∃ pair : Container × Container,
    (pair.1 = pair.2 ∨ pair ∈ seen) ∧ a = pair.1.value ∧ b = pair.2.value

variable (h)

/-- Whether two values are in a relation in which all pairs match. -/
def Bisimilar (a b : Value) : Prop :=
  ∃ R, (∀ x y, R x y → h.Matches R x y) ∧ R a b

/-- Whether two values are in a relation in which all pairs match that are not granted. -/
def AlikeIf (seen : List (Container × Container)) (a b : Value) : Prop :=
  ∃ R, (∀ x y, R x y → Granted seen x y ∨ h.Matches R x y) ∧ R a b

/-- Whether two values are bisimilar if each container may count as bisimilar to itself. -/
def Alike (a b : Value) : Prop :=
  h.AlikeIf [] a b

variable {h} {seen : List (Container × Container)}

/-- Bisimilar values match, with bisimilar parts. -/
theorem Bisimilar.matches (hab : h.Bisimilar a b) :
  h.Matches h.Bisimilar a b
  := by
  obtain ⟨R, hR, hab⟩ := hab
  exact (hR a b hab).mono fun x y hxy => ⟨R, hR, hxy⟩

/-- Values that are alike are granted or match, with parts that are alike. -/
theorem AlikeIf.granted_or_matches (hab : h.AlikeIf seen a b) :
  Granted seen a b ∨ h.Matches (h.AlikeIf seen) a b
  := by
  obtain ⟨R, hR, hab⟩ := hab
  exact (hR a b hab).imp_right (Matches.mono fun x y hxy => ⟨R, hR, hxy⟩)

/-- Values that are granted are alike. -/
theorem alikeIf_of_granted (hab : Granted seen a b) :
  h.AlikeIf seen a b
  := ⟨Granted seen, fun _ _ => .inl, hab⟩

/-- Values that match with parts that are alike are alike. -/
theorem alikeIf_of_matches (hab : h.Matches (h.AlikeIf seen) a b) :
  h.AlikeIf seen a b
  := by
  refine ⟨fun x y => h.AlikeIf seen x y ∨ h.Matches (h.AlikeIf seen) x y, ?_, .inr hab⟩
  intro x y hxy
  have hlook : Granted seen x y ∨ h.Matches (h.AlikeIf seen) x y :=
    hxy.elim AlikeIf.granted_or_matches .inr
  exact hlook.imp_right (Matches.mono fun _ _ => .inl)

/-- A pair that matches once it is granted need not be granted. -/
theorem AlikeIf.of_granted (pair : Container × Container)
    (hpair : h.Matches (h.AlikeIf (pair :: seen)) pair.1.value pair.2.value) :
  h.AlikeIf seen pair.1.value pair.2.value
  := by
  refine ⟨h.AlikeIf (pair :: seen), ?_, alikeIf_of_matches hpair⟩
  intro x y hxy
  rcases hxy.granted_or_matches with ⟨other, hother, rfl, rfl⟩ | hmatch
  · rcases hother with hsame | hmem
    · exact .inl ⟨other, .inl hsame, rfl, rfl⟩
    · rcases List.mem_cons.mp hmem with rfl | hseen
      · exact .inr hpair
      · exact .inl ⟨other, .inr hseen, rfl, rfl⟩
  · exact .inr hmatch

namespace Alike

/-- Values that are alike are so while others are under comparison. -/
theorem alikeIf (hab : h.Alike a b) (seen : List (Container × Container)) :
  h.AlikeIf seen a b
  := by
  obtain ⟨R, hR, hab⟩ := hab
  refine ⟨R, fun x y hxy => (hR x y hxy).imp_left ?_, hab⟩
  rintro ⟨pair, hsame, hx, hy⟩
  exact ⟨pair, .inl (hsame.resolve_right List.not_mem_nil), hx, hy⟩

/-- Values that are alike are the same container, or they match. -/
theorem eq_or_matches (hab : h.Alike a b) :
  (∃ c : Container, a = c.value ∧ b = c.value) ∨ h.Matches h.Alike a b
  := by
  refine hab.granted_or_matches.imp_left ?_
  rintro ⟨⟨c, d⟩, hsame, ha, hb⟩
  obtain rfl : c = d := hsame.resolve_right List.not_mem_nil
  exact ⟨c, ha, hb⟩

/-- If one value is like another, then the other is like it. -/
theorem symm (hab : h.Alike a b) :
  h.Alike b a
  := by
  refine ⟨flip h.Alike, ?_, hab⟩
  intro x y hyx
  rcases Alike.eq_or_matches hyx with ⟨c, rfl, rfl⟩ | hmatch
  · exact .inl ⟨(c, c), .inl rfl, rfl, rfl⟩
  · exact .inr hmatch.flip

/-- Values that are like the same one are alike. -/
theorem trans (hab : h.Alike a b) (hbc : h.Alike b c) :
  h.Alike a c
  := by
  refine ⟨fun x z => h.Alike x z ∨ Relation.Comp h.Alike h.Alike x z, ?_, .inr ⟨b, hab, hbc⟩⟩
  rintro x z (hxz | ⟨y, hxy, hyz⟩)
  · exact hxz.granted_or_matches.imp_right (Matches.mono fun _ _ => .inl)
  · rcases hxy.eq_or_matches with ⟨c, rfl, rfl⟩ | hmatch
    · exact hyz.granted_or_matches.imp_right (Matches.mono fun _ _ => .inl)
    · rcases hyz.eq_or_matches with ⟨c, rfl, rfl⟩ | hmatch'
      · exact .inr (hmatch.mono fun _ _ => .inl)
      · exact .inr ((hmatch.comp hmatch').mono fun _ _ => .inr)

end Alike

end Heap

end Scriptlet
