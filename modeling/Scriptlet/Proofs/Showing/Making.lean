import Scriptlet.Proofs.Showing.Literal

/-!
# Values made anew

A literal that stands for a value comes to another value that it stands for.  No entry of a hash is
lost on the way: two keys of a literal are found equal only where the keys that they stand for are.
-/

namespace Scriptlet

variable {σ : Type}

namespace Heap

variable {h : Heap} {pairs : Pairs} {key value : Value}

/-- A key that is found different from all others is put behind them. -/
theorem insert?_of_fresh (hkey : ∀ p ∈ pairs.toList, h.equal? p.1 key = some false) :
  h.insert? pairs key value = some (pairs.push (key, value))
  := by
  obtain ⟨slot, hslot⟩ : ∃ slot, h.slot? pairs key = some slot :=
    exists_slotWith fun p hp => ⟨false, hkey p hp⟩
  unfold insert?
  rw [hslot]
  cases slot with
  | none => rfl
  | some place =>
      obtain ⟨p, hp, -, hfound⟩ := slotWith_eq_some hslot
      rw [hkey p hp] at hfound
      cases hfound

end Heap

namespace Expr

variable {h h' : Heap} {e : Expr} {es : List Expr} {entries : List (Expr × Expr)}
  {v w : Value} {setting : Setting σ}

/-! ### Keys that stay apart -/

/-- Whether what two literals stand for is found different in every heap that goes on from `h`. -/
def Differ (h : Heap) (x y : Expr) : Prop :=
  ∀ h', h.Extends h' → ∀ v w, x.Spells h' v → y.Spells h' w → h'.equal? v w = some false

/-- Literals of values that are not alike differ: their other values would be alike only if these
values were, in the heap that has grown and so before. -/
theorem Spells.differ {x y : Expr} (hx : x.Spells h v) (hy : y.Spells h w)
    (hv : h.DistinctKeys v) (hw : h.DistinctKeys w) (hvw : ¬ h.Alike v w) :
  Differ h x y
  := by
  intro h' hh v' w' hv' hw'
  have hx' : Twins h' v v' := ⟨x, hx.extends hh, hv'⟩
  have hy' : Twins h' w w' := ⟨y, hy.extends hh, hw'⟩
  obtain ⟨r, hr⟩ := Heap.exists_equal? (.inl hv'.built.keysFounded) (b := w')
  have halike := Heap.equal?_eq_some_iff_alike (hx'.distinctKeys (hv.extends hx.built hh))
    (hy'.distinctKeys (hw.extends hy.built hh)) hr
  cases r with
  | false => exact hr
  | true =>
      have hvw' : h'.Alike v w := (hx'.alike.trans (halike.mp rfl)).trans hy'.alike.symm
      exact absurd (hvw'.of_extends hh hx.built hy.built) hvw

/-! ### What literals come to -/

/-- Whether an expression comes to a value that it stands for wherever the heap goes on from `h`. -/
def Remakes (setting : Setting σ) (h : Heap) (e : Expr) : Prop :=
  ∀ scope m, h.Extends m.heap →
    ∃ v m', (Task.expr e scope).Ends setting m (.ok v m') ∧ m.Extends m' ∧ e.Spells m'.heap v

/-- A literal without parts comes to what it stands for. -/
theorem remakes_of_ret {v : Value} (hplan : ∀ scope, Task.exprPlan e scope = .ret v)
    (hv : ∀ h : Heap, e.Spells h v) :
  e.Remakes setting h
  := by
  intro scope m _
  refine ⟨v, m, ?_, .refl m, hv m.heap⟩
  rw [Task.ends_iff]
  simp only [Task.plan, hplan, Plan.ends_ret]

/-- Literals come to values that they stand for, one after the other. -/
theorem exists_remakes_all (hes : ∀ e ∈ es, e.Remakes setting h) (scope : Scope) (m : Machine σ)
    (hm : h.Extends m.heap) :
  ∃ values m', (Task.all es scope).Ends setting m (.ok values m') ∧ m.Extends m'
    ∧ List.Forall₂ (fun e v => e.Spells m'.heap v) es values
  := by
  induction es generalizing m with
  | nil => exact ⟨[], m, Task.ends_iff.mpr (Plan.ends_ret.mpr rfl), .refl m, .nil⟩
  | cons e rest ih =>
      obtain ⟨he, hrest⟩ := List.forall_mem_cons.mp hes
      obtain ⟨v, m₁, hends, hextends, hv⟩ := he scope m hm
      obtain ⟨values, m₂, hends', hextends', hvalues⟩ := ih hrest m₁ (hm.trans hextends.heap)
      refine ⟨v :: values, m₂, ?_, hextends.trans hextends',
        .cons (hv.extends hextends'.heap) hvalues⟩
      exact Task.ends_iff.mpr
        (Plan.ends_of_call hends (Plan.ends_of_call hends' (Plan.ends_ret.mpr rfl)))

/-- Entries whose keys differ come to as many pairs, behind those that were found before. -/
theorem exists_remakes_entries (found : List (Expr × Expr))
    (hentries : ∀ entry ∈ entries, entry.1.Remakes setting h ∧ entry.2.Remakes setting h)
    (hdiffer : (found ++ entries).Pairwise fun x y => Differ h x.1 y.1) (scope : Scope)
    (m : Machine σ) (hm : h.Extends m.heap) (pairs : Pairs)
    (hpairs : SpellPairs m.heap found pairs.toList) :
  ∃ pairs' m', (Task.entries entries pairs scope).Ends setting m (.ok pairs' m') ∧ m.Extends m'
    ∧ SpellPairs m'.heap (found ++ entries) pairs'.toList
  := by
  induction entries generalizing found pairs m with
  | nil =>
      rw [List.append_nil]
      exact ⟨pairs, m, Task.ends_iff.mpr (Plan.ends_ret.mpr rfl), .refl m, hpairs⟩
  | cons entry rest ih =>
      obtain ⟨key, value⟩ := entry
      obtain ⟨⟨hkey, hvalue⟩, hrest⟩ := List.forall_mem_cons.mp hentries
      obtain ⟨k, m₁, hends₁, hextends₁, hk⟩ := hkey scope m hm
      obtain ⟨v, m₂, hends₂, hextends₂, hv⟩ := hvalue scope m₁ (hm.trans hextends₁.heap)
      have hextends := hextends₁.trans hextends₂
      have hk := hk.extends hextends₂.heap
      have hpairs₂ := spellPairs_iff.mp (spellPairs_extends hpairs hextends.heap)
      have hfresh : ∀ p ∈ pairs.toList, m₂.heap.equal? p.1 k = some false := by
        intro p hp
        obtain ⟨entry, hentry, hp, -⟩ := exists_of_forall₂ hpairs₂ p hp
        have hapart := (List.pairwise_append.mp hdiffer).2.2 entry hentry _ List.mem_cons_self
        exact hapart m₂.heap (hm.trans hextends.heap) p.1 k hp hk
      have hrun : (Action.insert pairs k v).run setting m₂ = .ok (pairs.push (k, v)) m₂ := by
        change Run.answer (·.insert? pairs k v) m₂ = _
        rw [Quiet.answer_apply, Heap.insert?_of_fresh hfresh]
      have hbehind : SpellPairs m₂.heap (found ++ [(key, value)]) (pairs.push (k, v)).toList := by
        rw [Array.toList_push, spellPairs_iff]
        exact List.rel_append hpairs₂ (.cons ⟨hk, hv⟩ .nil)
      rw [List.append_cons] at hdiffer ⊢
      obtain ⟨pairs', m₃, hends₃, hextends₃, hpairs'⟩ :=
        ih _ hrest hdiffer m₂ (hm.trans hextends.heap) _ hbehind
      refine ⟨pairs', m₃, ?_, hextends.trans hextends₃, hpairs'⟩
      exact Task.ends_iff.mpr
        (Plan.ends_of_call hends₁ (Plan.ends_of_call hends₂ (Plan.ends_of_act hrun
          (Task.ends_last.mpr hends₃))))

/-- An array of literals comes to an array of what they stand for. -/
theorem remakes_array {pos : Position} (hes : ∀ e ∈ es, e.Remakes setting h) :
  (array pos es).Remakes setting h
  := by
  intro scope m hm
  obtain ⟨values, m₁, hends, hextends, hvalues⟩ := exists_remakes_all hes scope m hm
  refine ⟨(m₁.heap.newArray values.toArray).1,
    { m₁ with heap := (m₁.heap.newArray values.toArray).2 }, ?_,
    hextends.trans ⟨rfl, rfl, m₁.heap.extends_newArray _⟩, ?_, ?_⟩
  · exact Task.ends_iff.mpr
      (Plan.ends_of_call hends (Plan.ends_of_act rfl (Plan.ends_ret.mpr rfl)))
  · simp [Heap.newArray]
  · rw [Heap.array_newArray, spellAll_iff]
    exact hvalues.imp fun _ _ hv => hv.extends (m₁.heap.extends_newArray _)

/-- A hash of literals comes to a hash of what they stand for, if its keys are found different. -/
theorem remakes_hash {pos : Position}
    (hentries : ∀ entry ∈ entries, entry.1.Remakes setting h ∧ entry.2.Remakes setting h)
    (hdiffer : entries.Pairwise fun x y => Differ h x.1 y.1) :
  (hash pos entries).Remakes setting h
  := by
  intro scope m hm
  obtain ⟨pairs, m₁, hends, hextends, hpairs⟩ :=
    exists_remakes_entries [] hentries hdiffer scope m hm #[] trivial
  refine ⟨(m₁.heap.newHash pairs).1, { m₁ with heap := (m₁.heap.newHash pairs).2 }, ?_,
    hextends.trans ⟨rfl, rfl, m₁.heap.extends_newHash _⟩, ?_, ?_⟩
  · exact Task.ends_iff.mpr
      (Plan.ends_of_call hends (Plan.ends_of_act rfl (Plan.ends_ret.mpr rfl)))
  · simp [Heap.newHash]
  · rw [Heap.hash_newHash]
    exact spellPairs_extends hpairs (m₁.heap.extends_newHash _)

/-- A literal comes to a value that it stands for. -/
theorem Spells.remakes (he : e.Spells h v) (hkeys : h.DistinctKeys v) :
  e.Remakes setting h
  := by
  have hP : h.Hereditary fun e v => h.DistinctKeys v → e.Remakes setting h := by
    constructor
    case null => exact fun _ _ => remakes_of_ret (fun _ => rfl) fun _ => trivial
    case bool => exact fun _ _ _ => remakes_of_ret (fun _ => rfl) fun _ => rfl
    case str => exact fun _ _ hs _ => remakes_of_ret (fun _ => rfl) fun _ => ⟨rfl, hs⟩
    case array =>
      intro pos es i _ hes hkeys
      refine remakes_array fun e he => ?_
      obtain ⟨v, hmem, -, hv⟩ := exists_of_forall₂ hes.flip e he
      exact hv (hkeys.holds (.element hmem))
    case hash =>
      intro pos entries i _ hentries hkeys
      refine remakes_hash (fun entry hentry => ?_) ?_
      · obtain ⟨pair, hmem, ⟨-, hkey⟩, -, hvalue⟩ :=
          exists_of_forall₂ hentries.flip entry hentry
        exact ⟨hkey (hkeys.holds (.key hmem)), hvalue (hkeys.holds (.value hmem))⟩
      · refine pairwise_of_forall₂ (forall₂_mem hentries).flip (hkeys i .refl) ?_
        intro pair pair' entry entry' hpair hpair' hne
        exact hpair.1.1.1.differ hpair'.1.1.1 (hkeys.holds (.key hpair.2.2))
          (hkeys.holds (.key hpair'.2.2)) hne
  exact hP.spells e he hkeys

end Expr

end Scriptlet
