import Scriptlet.Proofs.Lexing.Spelling
import Scriptlet.Proofs.Tree.Map

/-!
# Tokens in order

Each token of a text stands behind the one before it and in front of the end, so no two tokens share
a position.
-/

namespace Scriptlet

namespace Position

/-- Whether `p` stands before `q` in a text. -/
def Before (p q : Position) : Prop :=
  p.line < q.line ∨ p.line = q.line ∧ p.column < q.column

/-- Going over a character leads further. -/
theorem before_next (p : Position) (c : Char) :
  p.Before (p.next c)
  := by
  unfold Before next
  split
  · left
    simp
  · right
    simp

/-- What stands before something that stands before a third stands before the third. -/
theorem Before.trans {p q r : Position} (h : p.Before q) (h' : q.Before r) :
  p.Before r
  := by
  unfold Before at *
  omega

/-- Going over some characters leads further. -/
theorem before_after (p : Position) {cs : List Char} (h : cs ≠ []) :
  p.Before (p.after cs)
  := by
  induction cs generalizing p with
  | nil => exact absurd rfl h
  | cons c cs ih =>
      rw [after_cons]
      rcases cs with _ | ⟨d, cs⟩
      · exact p.before_next c
      · exact (p.before_next c).trans (ih _ (List.cons_ne_nil d cs))

/-- Nothing stands before itself. -/
theorem Before.ne {p q : Position} (h : p.Before q) :
  p ≠ q
  := by
  rintro rfl
  unfold Before at h
  omega

end Position

namespace Source

/-- The tokens of a text stand one behind the other, the first of them at `p` at the earliest. -/
theorem scan_sorted (p : Position) (k : Nat) (cs : List Char) :
  (∀ t ∈ scan p k cs, k = 0 ∧ p = t.position ∨ p.Before t.position)
    ∧ (scan p k cs).Pairwise fun t u => t.position.Before u.position
  := by
  induction cs generalizing p k with
  | nil => simp [scan]
  | cons c cs ih =>
      have hnext := p.before_next c
      have later (k : Nat) (t : Token) (ht : t ∈ scan (p.next c) k cs) : p.Before t.position := by
        rcases (ih (p.next c) k).1 t ht with ⟨-, heq⟩ | hbefore
        · rwa [← heq]
        · exact hnext.trans hbefore
      have skipped (k j : Nat) :
        (∀ t ∈ scan (p.next c) j cs, k = 0 ∧ p = t.position ∨ p.Before t.position)
          ∧ (scan (p.next c) j cs).Pairwise fun t u => t.position.Before u.position
        := ⟨fun t ht => .inr (later j t ht), (ih (p.next c) j).2⟩
      cases k with
      | succ k => exact skipped (k + 1) k
      | zero =>
          rw [scan]
          split
          · exact skipped 0 0
          · split
            · exact skipped 0 _
            · split
              next hd =>
                obtain ⟨d, hmem, hstart⟩ : ∃ d ∈ cs.head?, isNameStart d = true := by
                  simpa [Option.any_eq_true] using hd.2
                have hlen : (cs.takeWhile isNamePart).length ≠ 0 := by
                  cases cs with
                  | nil => simp at hmem
                  | cons d' cs =>
                      obtain rfl : d' = d := by simpa using hmem
                      simp [isNamePart_of_isNameStart hstart]
                -- The sign of a decorator and the name behind it are two tokens at different
                -- positions.
                have hname : ∀ t ∈ scan (p.next c) (cs.takeWhile isNamePart).length cs,
                    (p.next c).Before t.position := by
                  intro t ht
                  exact ((ih (p.next c) _).1 t ht).resolve_left fun h => hlen h.1
                constructor
                · intro t ht
                  simp only [List.mem_cons] at ht
                  rcases ht with rfl | rfl | ht
                  · exact .inl ⟨rfl, rfl⟩
                  · exact .inr hnext
                  · exact .inr (later _ t ht)
                · simp only [List.pairwise_cons, List.mem_cons, forall_eq_or_imp]
                  exact ⟨⟨hnext, later _⟩, hname, (ih (p.next c) _).2⟩
              next =>
                constructor
                · intro t ht
                  simp only [List.mem_cons] at ht
                  rcases ht with rfl | ht
                  · exact .inl ⟨rfl, rfl⟩
                  · exact .inr (later _ t ht)
                · simp only [List.pairwise_cons]
                  exact ⟨later _, (ih (p.next c) _).2⟩

/-- Each token that is read stands in front of the end. -/
theorem scan_before_after (p : Position) (k : Nat) (cs : List Char) :
  ∀ t ∈ scan p k cs, t.position.Before (p.after cs)
  := by
  induction cs generalizing p k with
  | nil => exact List.forall_mem_nil _
  | cons c cs ih =>
      have hfirst : p.Before ((p.next c).after cs) := p.before_after (List.cons_ne_nil c cs)
      cases k with
      | succ k => exact ih _ _
      | zero =>
          rw [scan, Position.after_cons]
          split
          · exact ih _ _
          · split
            · exact ih _ _
            · split
              next hd =>
                have hcs : cs ≠ [] := by
                  rintro rfl
                  simp at hd
                exact List.forall_mem_cons.mpr ⟨hfirst,
                  List.forall_mem_cons.mpr ⟨(p.next c).before_after hcs, ih _ _⟩⟩
              next => exact List.forall_mem_cons.mpr ⟨hfirst, ih _ _⟩

/-- The tokens of a text stand one behind the other. -/
theorem tokens_sorted (text : String) :
  (tokens text).Pairwise fun t u => t.position.Before u.position
  := (scan_sorted .start 0 text.toList).2

/-- The tokens of a text stand in front of its end. -/
theorem tokens_before_finish (text : String) :
  ∀ t ∈ tokens text, t.position.Before (finish text)
  := scan_before_after .start 0 text.toList

/-- The tokens of a text have different positions. -/
theorem tokens_nodup (text : String) :
  ((tokens text).map Token.position).Nodup
  := List.pairwise_map.mpr ((tokens_sorted text).imp Position.Before.ne)

end Source

end Scriptlet
