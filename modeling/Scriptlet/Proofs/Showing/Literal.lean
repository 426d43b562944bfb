import Scriptlet.Proofs.Running.Literal
import Scriptlet.Proofs.Structural
import Scriptlet.Proofs.Tree.Map

/-!
# Literals of values

A value without numbers, functions and errors that is not found inside itself is what a literal
stands for.  The literal says all about the value but where it is kept: values that a literal stands
for are alike, and the keys of the one differ from one another as those of the other do.
-/

namespace Scriptlet

/-- Whether a quoted text shows a character as itself or by a letter behind a backslash: the visible
characters of ASCII, the blank and four control characters. -/
def isReadable (c : Char) : Bool :=
  32 ≤ c.toNat && c.toNat ≤ 126 || c == '\n' || c == '\t' || c == '\r' || c == '\x00'

/-- Whether a value is a container, a boolean, `null` or a readable string. -/
def Value.Readable : Value → Prop
  | null | bool _ | array _ | hash _ => True
  | str s => ∀ c ∈ s.toList, isReadable c = true
  | _ => False

/-- Whether a value is made of containers, booleans, `null` and readable strings, with nothing found
inside itself and no hash with two equal keys. -/
structure Heap.Data (h : Heap) (v : Value) : Prop where
  built : h.Built v
  readable : ∀ w, h.Leads v w → w.Readable
  apart : ∀ i, h.Leads v (.hash i) →
    (h.hash i).toList.Pairwise fun x y => h.equal? x.1 y.1 ≠ some true

mutual

/-- Whether an expression is a literal that stands for a value. -/
def Expr.Spells (h : Heap) : Expr → Value → Prop
  | .null _, .null => True
  | .bool _ b, .bool c => b = c
  | .str _ s, .str t => s = t ∧ ∀ c ∈ s.toList, isReadable c = true
  | .array _ es, .array i => i < h.arrays.size ∧ Expr.SpellAll h es (h.array i).toList
  | .hash _ entries, .hash i => i < h.hashes.size ∧ Expr.SpellPairs h entries (h.hash i).toList
  | _, _ => False

/-- Whether expressions are literals that stand for values, one for each. -/
def Expr.SpellAll (h : Heap) : List Expr → List Value → Prop
  | [], [] => True
  | e :: es, v :: vs => e.Spells h v ∧ Expr.SpellAll h es vs
  | _, _ => False

/-- Whether entries are literals that stand for pairs, one for each. -/
def Expr.SpellPairs (h : Heap) : List (Expr × Expr) → List (Value × Value) → Prop
  | [], [] => True
  | (key, value) :: rest, pair :: pairs =>
    key.Spells h pair.1 ∧ value.Spells h pair.2 ∧ Expr.SpellPairs h rest pairs
  | _, _ => False

end

namespace Expr

variable {h : Heap} {es : List Expr} {entries : List (Expr × Expr)} {vs : List Value}
  {pairs : List (Value × Value)}

/-- Literals stand for values one by one. -/
theorem spellAll_iff :
  SpellAll h es vs ↔ List.Forall₂ (fun e v => e.Spells h v) es vs
  := by
  induction es generalizing vs with
  | nil =>
      cases vs with
      | nil => simp [SpellAll]
      | cons v vs => simp [SpellAll]
  | cons e es ih =>
      cases vs with
      | nil => simp [SpellAll]
      | cons v vs => simp [SpellAll, ih]

/-- Entries stand for pairs one by one. -/
theorem spellPairs_iff :
  SpellPairs h entries pairs
    ↔ List.Forall₂ (fun entry pair => entry.1.Spells h pair.1 ∧ entry.2.Spells h pair.2) entries
      pairs
  := by
  induction entries generalizing pairs with
  | nil =>
      cases pairs with
      | nil => simp [SpellPairs]
      | cons pair pairs => simp [SpellPairs]
  | cons entry entries ih =>
      cases pairs with
      | nil => simp [SpellPairs]
      | cons pair pairs => simp [SpellPairs, ih, and_assoc]

mutual

/-- What a literal stands for has nothing to do with its positions. -/
theorem spells_map (f : Position → Position) (e : Expr) (v : Value) :
  (e.map f id).Spells h v ↔ e.Spells h v
  := by
  cases e with
  | null pos | bool pos b | str pos s =>
      cases v
      all_goals exact Iff.rfl
  | array pos es =>
      cases v with
      | array i => exact and_congr_right fun _ => spellAll_map f es _
      | _ => exact Iff.rfl
  | hash pos entries =>
      cases v with
      | hash i => exact and_congr_right fun _ => spellPairs_map f entries _
      | _ => exact Iff.rfl
  | cond pos test yes no =>
      cases no
      all_goals exact Iff.rfl
  | _ => exact Iff.rfl

/-- What literals stand for does not depend on their positions. -/
theorem spellAll_map (f : Position → Position) (es : List Expr) (vs : List Value) :
  SpellAll h (mapAll f id es) vs ↔ SpellAll h es vs
  := by
  cases es with
  | nil => exact Iff.rfl
  | cons e es =>
      cases vs with
      | nil => exact Iff.rfl
      | cons v vs => exact and_congr (spells_map f e v) (spellAll_map f es vs)

/-- What entries stand for does not depend on their positions. -/
theorem spellPairs_map (f : Position → Position) (entries : List (Expr × Expr))
    (pairs : List (Value × Value)) :
  SpellPairs h (mapEntries f id entries) pairs ↔ SpellPairs h entries pairs
  := by
  rcases entries with _ | ⟨⟨key, value⟩, entries⟩
  · exact Iff.rfl
  · cases pairs with
    | nil => exact Iff.rfl
    | cons pair pairs =>
        exact and_congr (spells_map f key pair.1)
          (and_congr (spells_map f value pair.2) (spellPairs_map f entries pairs))

end

/-- What a literal stands for does not depend on its positions. -/
theorem spells_bare {e : Expr} {v : Value} :
  e.bare.Spells h v ↔ e.Spells h v
  := spells_map _ e v

end Expr

/-! ### Induction on literals -/

/-- Whether `P` holds of a literal and its value if it holds of their parts. -/
structure Heap.Hereditary (h : Heap) (P : Expr → Value → Prop) : Prop where
  null (pos : Position) : P (.null pos) .null
  bool (pos : Position) (b : Bool) : P (.bool pos b) (.bool b)
  str (pos : Position) (s : String) : (∀ c ∈ s.toList, isReadable c = true) →
    P (.str pos s) (.str s)
  array (pos : Position) (es : List Expr) (i : Nat) : i < h.arrays.size →
    List.Forall₂ (fun e v => e.Spells h v ∧ P e v) es (h.array i).toList →
    P (.array pos es) (.array i)
  hash (pos : Position) (entries : List (Expr × Expr)) (i : Nat) : i < h.hashes.size →
    List.Forall₂ (fun entry pair => (entry.1.Spells h pair.1 ∧ P entry.1 pair.1)
      ∧ entry.2.Spells h pair.2 ∧ P entry.2 pair.2) entries (h.hash i).toList →
    P (.hash pos entries) (.hash i)

namespace Heap.Hereditary

variable {h : Heap} {P : Expr → Value → Prop}

mutual

/-- What holds of literals if it holds of their parts holds of all literals. -/
theorem spells (hP : h.Hereditary P) (e : Expr) {v : Value} (he : e.Spells h v) :
  P e v
  := by
  cases e with
  | null pos =>
      cases v with
      | null => exact hP.null pos
      | _ => exact he.elim
  | bool pos b =>
      cases v with
      | bool c =>
          obtain rfl : b = c := he
          exact hP.bool pos b
      | _ => exact he.elim
  | str pos s =>
      cases v with
      | str t =>
          obtain ⟨rfl, hs⟩ := he
          exact hP.str pos s hs
      | _ => exact he.elim
  | array pos es =>
      cases v with
      | array i => exact hP.array pos es i he.1 (hP.spellAll es he.2)
      | _ => exact he.elim
  | hash pos entries =>
      cases v with
      | hash i => exact hP.hash pos entries i he.1 (hP.spellPairs entries he.2)
      | _ => exact he.elim
  | _ => exact he.elim

/-- What holds of literals if it holds of their parts holds of each of some literals. -/
theorem spellAll (hP : h.Hereditary P) (es : List Expr) {vs : List Value}
    (hes : Expr.SpellAll h es vs) :
  List.Forall₂ (fun e v => e.Spells h v ∧ P e v) es vs
  := by
  cases es with
  | nil =>
      cases vs with
      | nil => exact .nil
      | cons v vs => exact hes.elim
  | cons e es =>
      cases vs with
      | nil => exact hes.elim
      | cons v vs => exact .cons ⟨hes.1, hP.spells e hes.1⟩ (hP.spellAll es hes.2)

/-- What holds of literals if it holds of their parts holds of the keys and values of some
entries. -/
theorem spellPairs (hP : h.Hereditary P) (entries : List (Expr × Expr))
    {pairs : List (Value × Value)} (hentries : Expr.SpellPairs h entries pairs) :
  List.Forall₂ (fun entry pair => (entry.1.Spells h pair.1 ∧ P entry.1 pair.1)
    ∧ entry.2.Spells h pair.2 ∧ P entry.2 pair.2) entries pairs
  := by
  cases entries with
  | nil =>
      cases pairs with
      | nil => exact .nil
      | cons pair pairs => exact hentries.elim
  | cons entry entries =>
      cases pairs with
      | nil => exact hentries.elim
      | cons pair pairs =>
          obtain ⟨key, value⟩ := entry
          obtain ⟨hkey, hvalue, hrest⟩ := hentries
          exact .cons ⟨⟨hkey, hP.spells key hkey⟩, hvalue, hP.spells value hvalue⟩
            (hP.spellPairs entries hrest)

end

end Heap.Hereditary

section

variable {α β : Type} {R : α → β → Prop} {l : List α} {l' : List β}

/-- Each element of the second list is related to one of the first. -/
theorem exists_of_forall₂ (h : List.Forall₂ R l l') :
  ∀ y ∈ l', ∃ x ∈ l, R x y
  := by
  induction h with
  | nil => exact List.forall_mem_nil _
  | cons hxy _ ih =>
      rw [List.forall_mem_cons]
      refine ⟨⟨_, List.mem_cons_self, hxy⟩, fun y hy => ?_⟩
      obtain ⟨x, hx, hxy⟩ := ih y hy
      exact ⟨x, List.mem_cons_of_mem _ hx, hxy⟩

/-- If something is related to each element of a list, then some list is related to it. -/
theorem exists_forall₂ (h : ∀ y ∈ l', ∃ x, R x y) :
  ∃ l, List.Forall₂ R l l'
  := by
  induction l' with
  | nil => exact ⟨[], .nil⟩
  | cons y l' ih =>
      obtain ⟨⟨x, hxy⟩, h⟩ := List.forall_mem_cons.mp h
      obtain ⟨l, hl⟩ := ih h
      exact ⟨x :: l, .cons hxy hl⟩

/-- Related elements are elements of the lists. -/
theorem forall₂_mem (h : List.Forall₂ R l l') :
  List.Forall₂ (fun x y => R x y ∧ x ∈ l ∧ y ∈ l') l l'
  := by
  obtain ⟨hlength, hzip⟩ := List.forall₂_iff_zip.mp h
  exact List.forall₂_iff_zip.mpr ⟨hlength, fun hxy => ⟨hzip hxy, List.of_mem_zip hxy⟩⟩

/-- What holds pairwise of a list holds pairwise of a related one in its own way. -/
theorem pairwise_of_forall₂ {S : α → α → Prop} {T : β → β → Prop} (h : List.Forall₂ R l l')
    (hS : l.Pairwise S) (hRST : ∀ x y x' y', R x x' → R y y' → S x y → T x' y') :
  l'.Pairwise T
  := by
  induction h with
  | nil => exact .nil
  | cons hxx' hrest ih =>
      obtain ⟨hx, hS⟩ := List.pairwise_cons.mp hS
      refine List.pairwise_cons.mpr ⟨fun y' hy' => ?_, ih hS⟩
      obtain ⟨y, hy, hyy'⟩ := exists_of_forall₂ hrest y' hy'
      exact hRST _ _ _ _ hxx' hyy' (hx y hy)

/-- Two images of a list are related member by member if each member of the list has to do with
something. -/
theorem forall₂_map_map {γ δ : Type} {S : γ → δ → Prop} {f : α → γ} {g : α → δ}
    (h : List.Forall₂ R l l') (hRS : ∀ x y, R x y → S (f x) (g x)) :
  List.Forall₂ S (l.map f) (l.map g)
  := by
  rw [List.forall₂_map_left_iff, List.forall₂_map_right_iff, List.forall₂_same]
  intro x hx
  obtain ⟨y, -, hxy⟩ := exists_of_forall₂ h.flip x hx
  exact hRS x y hxy

/-- Lists that stand for one list stand for each other. -/
theorem forall₂_of_common {γ : Type} {S : α → γ → Prop} {T : β → γ → Prop} {l'' : List γ}
    (h : List.Forall₂ R l l') (hS : List.Forall₂ S l l'')
    (hRS : ∀ x y z, R x y → S x z → T y z) :
  List.Forall₂ T l' l''
  := by
  induction h generalizing l'' with
  | nil =>
      cases hS
      exact .nil
  | cons hxy _ ih =>
      cases hS with
      | cons hxz hrest => exact .cons (hRS _ _ _ hxy hxz) (ih hrest)

end

namespace Expr

variable {h h' : Heap} {e : Expr} {v w : Value}

/-- A value that a literal stands for is made of earlier ones. -/
theorem Spells.built (he : e.Spells h v) :
  h.Built v
  := by
  have hP : h.Hereditary fun _ v => h.Built v := by
    constructor
    case null => exact fun _ => .intro trivial (by rintro w ⟨⟩)
    case bool => exact fun _ _ => .intro trivial (by rintro w ⟨⟩)
    case str => exact fun _ _ _ => .intro trivial (by rintro w ⟨⟩)
    case array =>
      intro pos es i hi hes
      refine .intro hi fun w hw => ?_
      cases hw with
      | element hx =>
          obtain ⟨e, -, -, hbuilt⟩ := exists_of_forall₂ hes w hx
          exact hbuilt
    case hash =>
      intro pos entries i hi hentries
      refine .intro hi fun w hw => ?_
      cases hw with
      | key hpair =>
          obtain ⟨entry, -, ⟨-, hbuilt⟩, -⟩ := exists_of_forall₂ hentries _ hpair
          exact hbuilt
      | value hpair =>
          obtain ⟨entry, -, -, -, hbuilt⟩ := exists_of_forall₂ hentries _ hpair
          exact hbuilt
  exact hP.spells e he

/-- What a literal stands for does not change as the heap grows. -/
theorem Spells.extends (he : e.Spells h v) (hh : h.Extends h') :
  e.Spells h' v
  := by
  have hP : h.Hereditary fun e v => e.Spells h' v := by
    constructor
    case null => exact fun _ => trivial
    case bool => exact fun _ _ => rfl
    case str => exact fun _ _ hs => ⟨rfl, hs⟩
    case array =>
      intro pos es i hi hes
      refine ⟨Nat.lt_of_lt_of_le hi hh.arrays_size, ?_⟩
      rw [hh.array i hi, spellAll_iff]
      exact hes.imp fun _ _ => And.right
    case hash =>
      intro pos entries i hi hentries
      refine ⟨Nat.lt_of_lt_of_le hi hh.hashes_size, ?_⟩
      rw [hh.hash i hi, spellPairs_iff]
      exact hentries.imp fun _ _ h => ⟨h.1.2, h.2.2⟩
  exact hP.spells e he

/-- What entries stand for they stand for while the heap grows. -/
theorem spellPairs_extends {entries : List (Expr × Expr)} {pairs : List (Value × Value)}
    (hpairs : SpellPairs h entries pairs) (hh : h.Extends h') :
  SpellPairs h' entries pairs
  := by
  rw [spellPairs_iff] at hpairs ⊢
  exact hpairs.imp fun _ _ hpair => ⟨hpair.1.extends hh, hpair.2.extends hh⟩

/-- Whether one literal stands for two values. -/
def Twins (h : Heap) (v w : Value) : Prop :=
  ∃ e : Expr, e.Spells h v ∧ e.Spells h w

/-- Hashes that one literal stands for have pairs that one entry stands for each. -/
theorem Twins.pairs {i j : Nat} (hij : Twins h (.hash i) (.hash j)) :
  List.Forall₂ (fun x y : Value × Value => Twins h x.1 y.1 ∧ Twins h x.2 y.2) (h.hash i).toList
    (h.hash j).toList
  := by
  obtain ⟨e, hi, hj⟩ := hij
  cases e with
  | hash pos entries =>
      refine forall₂_of_common (spellPairs_iff.mp hi.2) (spellPairs_iff.mp hj.2) ?_
      exact fun entry x y hx hy => ⟨⟨_, hx.1, hy.1⟩, _, hx.2, hy.2⟩
  | _ => exact hi.elim

/-- Values that one literal stands for match, and so do their parts. -/
theorem Twins.matches (hvw : Twins h v w) :
  h.Matches (Twins h) v w
  := by
  obtain ⟨e, hv, hw⟩ := id hvw
  have hP : h.Hereditary fun e v => e.Spells h w → Twins h v w → h.Matches (Twins h) v w := by
    constructor
    case null =>
      intro pos hw _
      cases w with
      | null => trivial
      | _ => exact hw.elim
    case bool =>
      intro pos b hw _
      cases w with
      | bool c => exact hw
      | _ => exact hw.elim
    case str =>
      intro pos s _ hw _
      cases w with
      | str t => exact hw.1
      | _ => exact hw.elim
    case array =>
      intro pos es i _ hes hw _
      cases w with
      | array j =>
          refine forall₂_of_common hes (spellAll_iff.mp hw.2) ?_
          exact fun e x y hx hy => ⟨e, hx.1, hy⟩
      | _ => exact hw.elim
    case hash =>
      intro pos entries i _ _ hw htwins
      cases w with
      | hash j =>
          have hpairs := htwins.pairs
          exact ⟨exists_of_forall₂ (List.Forall₂.flip hpairs), exists_of_forall₂ hpairs⟩
      | _ => exact hw.elim
  exact hP.spells e hv hw hvw

/-- Values that one literal stands for are alike. -/
theorem Twins.alike (hvw : Twins h v w) :
  h.Alike v w
  := ⟨Twins h, fun _ _ hvw => .inr hvw.matches, hvw⟩

/-- What is found inside a value has a twin inside each twin of the value. -/
theorem Twins.exists_holds {x : Value} (hvw : Twins h v w) (hx : h.Holds w x) :
  ∃ y, h.Holds v y ∧ Twins h y x
  := by
  have hmatch := hvw.matches
  cases hx with
  | element hx =>
      cases v with
      | array i =>
          obtain ⟨y, hy, hyx⟩ := exists_of_forall₂ hmatch _ hx
          exact ⟨y, .element hy, hyx⟩
      | _ => exact hmatch.elim
  | key hpair =>
      cases v with
      | hash i =>
          obtain ⟨pair, hmem, hkey, -⟩ := hmatch.2 _ hpair
          exact ⟨pair.1, .key hmem, hkey⟩
      | _ => exact hmatch.elim
  | value hpair =>
      cases v with
      | hash i =>
          obtain ⟨pair, hmem, -, hvalue⟩ := hmatch.2 _ hpair
          exact ⟨pair.2, .value hmem, hvalue⟩
      | _ => exact hmatch.elim

/-- What is found inside the one value has a twin inside the other. -/
theorem Twins.exists_leads {x : Value} (hvw : Twins h v w) (hx : h.Leads w x) :
  ∃ y, h.Leads v y ∧ Twins h y x
  := by
  induction hx with
  | refl => exact ⟨v, .refl, hvw⟩
  | tail _ hx ih =>
      obtain ⟨y, hy, htwins⟩ := ih
      obtain ⟨z, hz, htwins⟩ := htwins.exists_holds hx
      exact ⟨z, .tail hy hz, htwins⟩

/-- The keys of a value differ from one another as those of its twin do. -/
theorem Twins.distinctKeys (hvw : Twins h v w) (hv : h.DistinctKeys v) :
  h.DistinctKeys w
  := by
  intro j hj
  obtain ⟨x, hx, htwins⟩ := hvw.exists_leads hj
  cases x with
  | hash i =>
      refine pairwise_of_forall₂ htwins.pairs (hv i hx) fun x y x' y' hx hy hne halike => hne ?_
      exact (hx.1.alike.trans halike).trans hy.1.alike.symm
  | _ => exact htwins.matches.elim

/-- One literal stands for two values in either order. -/
theorem Twins.symm (hvw : Twins h v w) :
  Twins h w v
  := by
  obtain ⟨e, hv, hw⟩ := hvw
  exact ⟨e, hw, hv⟩

/-- Values that one literal stands for are equal. -/
theorem Twins.equal?_eq (hvw : Twins h v w) (hv : h.DistinctKeys v) :
  h.equal? v w = some true
  := by
  obtain ⟨e, hspells, -⟩ := id hvw
  obtain ⟨r, hr⟩ := Heap.exists_equal? (.inl hspells.built.keysFounded) (b := w)
  rw [hr, (Heap.equal?_eq_some_iff_alike hv (hvw.distinctKeys hv) hr).mpr hvw.alike]

end Expr

/-! ### Values as the heap grows -/

namespace Heap

variable {h h' : Heap} {a b v w : Value}

/-- What is made of earlier values is there. -/
theorem Built.has (hv : h.Built v) :
  h.Has v
  := by
  obtain ⟨hhas, -⟩ := hv
  exact hhas

/-- What is found inside a value later was found there before. -/
theorem Extends.leads (hh : h.Extends h') (hv : h.Built v) (hw : h'.Leads v w) :
  h.Leads v w
  := by
  induction hw with
  | refl => exact .refl
  | tail _ hw ih => exact .tail ih (hh.holds (hv.leads ih).has hw)

/-- Values that were there before are alike in a heap that has grown only if they were alike before:
by the same relation, between values that were there before. -/
theorem Alike.of_extends (hab : h'.Alike a b) (hh : h.Extends h') (ha : h.Built a)
    (hb : h.Built b) :
  h.Alike a b
  := by
  obtain ⟨R, hR, hab⟩ := hab
  refine ⟨fun x y => R x y ∧ h.Built x ∧ h.Built y, ?_, hab, ha, hb⟩
  rintro x y ⟨hxy, hx, hy⟩
  refine (hR x y hxy).imp_right fun hmatch => ?_
  rcases h'.pair_cases x y with ⟨i, j, rfl, rfl⟩ | ⟨i, j, rfl, rfl⟩ | ⟨hlook, -⟩
  · change List.Forall₂ R (h'.array i).toList (h'.array j).toList at hmatch
    rw [hh.array i hx.has, hh.array j hy.has] at hmatch
    refine (forall₂_mem hmatch).imp fun x y hxy => ?_
    exact ⟨hxy.1, hx.holds (.element hxy.2.1), hy.holds (.element hxy.2.2)⟩
  · obtain ⟨hcover, hcover'⟩ : h'.Covers R i j ∧ h'.Covers (flip R) j i := hmatch
    unfold Covers at hcover hcover'
    rw [hh.hash i hx.has, hh.hash j hy.has] at hcover hcover'
    constructor
    · intro p hp
      obtain ⟨q, hq, hkey, hvalue⟩ := hcover p hp
      exact ⟨q, hq, ⟨hkey, hx.holds (.key hp), hy.holds (.key hq)⟩,
        hvalue, hx.holds (.value hp), hy.holds (.value hq)⟩
    · intro q hq
      obtain ⟨p, hp, hkey, hvalue⟩ := hcover' q hq
      exact ⟨p, hp, ⟨hkey, hx.holds (.key hp), hy.holds (.key hq)⟩,
        hvalue, hx.holds (.value hp), hy.holds (.value hq)⟩
  · rw [hlook] at hmatch
    rcases h.pair_cases x y with ⟨i, j, rfl, rfl⟩ | ⟨i, j, rfl, rfl⟩ | ⟨hlook, -⟩
    · exact hmatch.elim
    · exact hmatch.elim
    · rw [hlook]
      exact hmatch

/-- The keys inside a value stay different while the heap grows. -/
theorem DistinctKeys.extends (hv : h.DistinctKeys v) (hbuilt : h.Built v) (hh : h.Extends h') :
  h'.DistinctKeys v
  := by
  intro i hi
  have hlead := hh.leads hbuilt hi
  have hhash := hbuilt.leads hlead
  unfold KeysApart
  rw [hh.hash i hhash.has]
  refine (hv i hlead).imp_of_mem fun hx hy hne halike => hne ?_
  exact halike.of_extends hh (hhash.holds (.key hx)) (hhash.holds (.key hy))

/-- No hash inside a value that is made of data has two equal keys. -/
theorem Data.distinctKeys (hv : h.Data v) :
  h.DistinctKeys v
  := by
  refine hv.built.keysFounded.distinctKeys fun i hi => ?_
  have hhash := hv.built.leads hi
  refine (hv.apart i hi).imp_of_mem fun {x y} hx _ hne => ?_
  obtain ⟨r, hr⟩ := exists_equal? (.inl (hhash.holds (.key hx)).keysFounded) (b := y.1)
  cases r with
  | true => exact absurd hr hne
  | false => exact hr

/-- What is made of earlier readable values is what a literal stands for. -/
theorem Built.exists_spells (hv : h.Built v) (hread : ∀ w, h.Leads v w → w.Readable) :
  ∃ e : Expr, e.Spells h v
  := by
  induction hv with
  | @intro v hhas _ ih =>
      have hpart (w : Value) (hw : h.Holds v w) : ∃ e : Expr, e.Spells h w :=
        ih w hw fun x hx => hread x (.head hw hx)
      cases v with
      | null => exact ⟨.null .start, trivial⟩
      | bool b => exact ⟨.bool .start b, rfl⟩
      | str s => exact ⟨.str .start s, rfl, hread _ .refl⟩
      | array i =>
          obtain ⟨es, hes⟩ := exists_forall₂ fun x hx => hpart x (.element hx)
          exact ⟨.array .start es, hhas, Expr.spellAll_iff.mpr hes⟩
      | hash i =>
          have hpairs : ∀ pair ∈ (h.hash i).toList, ∃ entry : Expr × Expr,
              entry.1.Spells h pair.1 ∧ entry.2.Spells h pair.2 := by
            intro pair hpair
            obtain ⟨key, hkey⟩ := hpart _ (.key hpair)
            obtain ⟨value, hvalue⟩ := hpart _ (.value hpair)
            exact ⟨(key, value), hkey, hvalue⟩
          obtain ⟨entries, hentries⟩ := exists_forall₂ hpairs
          exact ⟨.hash .start entries, hhas, Expr.spellPairs_iff.mpr hentries⟩
      | _ => exact (hread _ .refl).elim

end Heap

namespace Expr

variable {h : Heap} {e : Expr} {v w : Value}

/-- What is found inside a value that a literal stands for is what a part of the literal stands
for. -/
theorem Spells.exists_holds (he : e.Spells h v) (hw : h.Holds v w) :
  ∃ part : Expr, part.Spells h w
  := by
  cases hw with
  | element hx =>
      cases e with
      | array pos es =>
          obtain ⟨part, -, hpart⟩ := exists_of_forall₂ (spellAll_iff.mp he.2) _ hx
          exact ⟨part, hpart⟩
      | _ => exact he.elim
  | key hpair =>
      cases e with
      | hash pos entries =>
          obtain ⟨entry, -, hentry⟩ := exists_of_forall₂ (spellPairs_iff.mp he.2) _ hpair
          exact ⟨entry.1, hentry.1⟩
      | _ => exact he.elim
  | value hpair =>
      cases e with
      | hash pos entries =>
          obtain ⟨entry, -, hentry⟩ := exists_of_forall₂ (spellPairs_iff.mp he.2) _ hpair
          exact ⟨entry.2, hentry.2⟩
      | _ => exact he.elim

/-- What a literal stands for is a container, a boolean, `null` or a readable string. -/
theorem Spells.readable (he : e.Spells h v) :
  v.Readable
  := by
  have hP : h.Hereditary fun _ v => v.Readable := by
    constructor
    case null => exact fun _ => trivial
    case bool => exact fun _ _ => trivial
    case str => exact fun _ _ hs => hs
    case array => exact fun _ _ _ _ _ => trivial
    case hash => exact fun _ _ _ _ _ => trivial
  exact hP.spells e he

end Expr

/-- A value is made of readable ones if and only if a literal stands for it. -/
theorem Heap.exists_spells_iff {h : Heap} {v : Value} :
  (∃ e : Expr, e.Spells h v) ↔ h.Built v ∧ ∀ w, h.Leads v w → w.Readable
  := by
  constructor
  · rintro ⟨e, he⟩
    refine ⟨he.built, fun w hw => ?_⟩
    obtain ⟨part, hpart⟩ : ∃ part : Expr, part.Spells h w := by
      induction hw with
      | refl => exact ⟨e, he⟩
      | tail _ hw ih =>
          obtain ⟨part, hpart⟩ := ih
          exact hpart.exists_holds hw
    exact hpart.readable
  · rintro ⟨hv, hread⟩
    exact hv.exists_spells hread

end Scriptlet
