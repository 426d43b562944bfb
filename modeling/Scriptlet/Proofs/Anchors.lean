import Scriptlet.Proofs.Lexing.Order
import Scriptlet.Proofs.Parsing.Sites

/-!
# Errors in order

The syntax errors of a text stand at its tokens, each behind the one before it, and so do its
statements.  An error is reported at a token that has been reached when reading stops, thus no
further on than where parsing goes on.  Where it goes on right at the error, it does so at a token
that can only start a statement, and a statement that starts with such a token reads it before it
can fail.
-/

namespace Scriptlet

namespace Parse

section

variable {α : Type} {finish : Position} {l : List Token} {n : Nat}

/-! ### The position of a statement -/

/-- A run leads to some result or some error. -/
@[simp] theorem ensures_trivial (p : Parse α) (l : List Token) :
  Ensures p l (fun _ _ => True) (fun _ => True)
  := by
  unfold Ensures
  split
  · trivial
  · trivial

/-- Whether the statements that `p` makes are at the first of the tokens they are made of. -/
def Placed (finish : Position) (p : Parse Stmt) : Prop :=
  ∀ l, Ensures p l (fun s _ => s.pos = hereOf finish l) (fun _ => True)

/-- A `let` is at its first token. -/
theorem placed_letStatement (n : Nat) :
  Placed finish (letStatement finish n)
  := by
  intro l
  cases n with
  | zero => simp [letStatement]
  | succ n => simp [letStatement, Stmt.pos]

/-- A `return` is at its first token. -/
theorem placed_returnStatement (n : Nat) :
  Placed finish (returnStatement finish n)
  := by
  intro l
  cases n with
  | zero => simp [returnStatement]
  | succ n =>
      simp only [returnStatement, ensures_bind, ensures_here, ensures_advance, ensures_kind]
      split
      all_goals simp [Stmt.pos]

/-- A `use` is at its first token. -/
theorem placed_useStatement :
  Placed finish (useStatement finish)
  := by
  intro l
  simp only [useStatement, ensures_bind, ensures_here, ensures_advance, ensures_kind]
  split
  all_goals simp [Stmt.pos]

/-- The declaration of a function is at its first token. -/
theorem placed_funcStatement (n : Nat) :
  Placed finish (funcStatement finish n)
  := by
  intro l
  cases n with
  | zero => simp [funcStatement]
  | succ n => simp [funcStatement, Stmt.pos]

/-- A statement that is an expression is at its first token. -/
theorem placed_exprStatement (n : Nat) :
  Placed finish (exprStatement finish n)
  := by
  intro l
  cases n with
  | zero => simp [exprStatement]
  | succ n => simp [exprStatement, Stmt.pos]

/-- Every statement is at its first token. -/
theorem placed_statement (n : Nat) :
  Placed finish (statement finish n)
  := by
  intro l
  cases n with
  | zero => simp [statement]
  | succ n =>
      simp only [statement, ensures_bind, ensures_kind]
      split
      · exact placed_letStatement n l
      · exact placed_returnStatement n l
      · exact placed_useStatement l
      · simp [Stmt.pos]
      · simp only [ensures_bind, ensures_secondKind, ensures_ite]
        split
        · exact placed_funcStatement n l
        · exact placed_exprStatement n l
      · exact placed_exprStatement n l

/-- The position of a statement that is read is that of the first token. -/
theorem pos_of_statement {t : Token} {ts rest : List Token} {s : Stmt}
    (h : statement finish n (t :: ts) = .ok s rest) :
  s.pos = t.position
  := by
  have hplaced : Placed finish (statement finish n) := placed_statement n
  have hplaced := hplaced (t :: ts)
  unfold Ensures at hplaced
  rwa [h] at hplaced

/-! ### Where parsing goes on -/

/-- Tokens are not found again behind the first of them. -/
theorem not_cons_suffix (t : Token) (ts : List Token) :
  ¬ t :: ts <:+ ts
  := fun h => Nat.not_succ_le_self _ h.length_le

/-- Parsing goes on at one of the tokens that are left, or at the end. -/
theorem resumeAfter_suffix_left (start : Position) (l : List Token) :
  resumeAfter start l <:+ l
  := by
  unfold resumeAfter
  split
  · exact (resume_suffix l.tail).trans (List.tail_suffix l)
  · exact resume_suffix l

/-- Where parsing goes on right at a token, that one can only start a statement. -/
theorem restarts_of_resume {t : Token} {ts : List Token} (h : resume (t :: ts) = t :: ts) :
  restarts t.kind = true
  := by
  by_contra hr
  apply not_cons_suffix t ts
  rw [resume_cons, if_neg hr] at h
  split at h
  · exact h ▸ List.suffix_rfl
  · exact h ▸ resume_suffix ts

/-- Parsing drops no token after an error only in front of one that can only start a statement. -/
theorem restarts_of_resumeAfter {start : Position} (h : resumeAfter start l = l) (hl : l ≠ []) :
  restarts (kindOf l) = true
  := by
  obtain ⟨t, ts, rfl⟩ := List.exists_cons_of_ne_nil hl
  unfold resumeAfter at h
  split at h
  · have hsuffix : resume ts <:+ ts := resume_suffix ts
    rw [List.tail_cons] at h
    rw [h] at hsuffix
    exact absurd hsuffix (not_cons_suffix t ts)
  · exact restarts_of_resume h

/-! ### Statements and errors in order -/

/-- Whether the tokens stand one behind the other, and in front of the end. -/
structure InOrder (finish : Position) (l : List Token) : Prop where
  sorted : l.Pairwise fun t u => t.position.Before u.position
  before : ∀ t ∈ l, t.position.Before finish

/-- What is left of tokens in order is in order. -/
theorem InOrder.suffix {m : List Token} (h : InOrder finish l) (hm : m <:+ l) :
  InOrder finish m
  where
  sorted := h.sorted.sublist hm.sublist
  before := fun t ht => h.before t (hm.subset ht)

/-- What is left later starts further on. -/
theorem InOrder.here_before {q r : List Token} (h : InOrder finish q) (hr : r <:+ q) (hne : r ≠ q) :
  (hereOf finish q).Before (hereOf finish r)
  := by
  cases q with
  | nil => exact absurd (List.suffix_nil.mp hr) hne
  | cons t ts =>
      have hr := (List.suffix_cons_iff.mp hr).resolve_left hne
      cases r with
      | nil => exact h.before t List.mem_cons_self
      | cons u us => exact (List.pairwise_cons.mp h.sorted).1 u (hr.subset List.mem_cons_self)

/-- Whether an error at `pos` can come from the tokens `l`: it is at one of them or at the end, but
not at the first one if that can only start a statement. -/
def Erring (finish : Position) (l : List Token) (pos : Position) : Prop :=
  ∃ q, q <:+ l ∧ hereOf finish q = pos ∧ (q = l → l ≠ [] ∧ restarts (kindOf l) = false)

/-- What is found in the tokens `l`: statements at some of them and errors that can come from them,
both in order. -/
structure Orderly (finish : Position) (l : List Token) (found : List Stmt × List SyntaxError) :
    Prop where
  statements : ∀ s ∈ found.1, ∃ t ∈ l, t.position = s.pos
  statements_sorted : found.1.Pairwise fun s s' => s.pos.Before s'.pos
  errors : ∀ e ∈ found.2, Erring finish l e.position
  errors_sorted : found.2.Pairwise fun e e' => e.position.Before e'.position

variable {t : Token} {ts rest : List Token} {found : List Stmt × List SyntaxError}

/-- An error behind the first token can come from the tokens. -/
theorem erring_behind {q : List Token} (hq : q <:+ ts) :
  Erring finish (t :: ts) (hereOf finish q)
  := by
  refine ⟨q, hq.trans (List.suffix_cons t ts), rfl, ?_⟩
  rintro rfl
  exact absurd hq (not_cons_suffix t ts)

/-- An error that can come from what is left behind the first token can come from all tokens. -/
theorem Erring.cons {pos : Position} (h : Erring finish rest pos) (hrest : rest <:+ ts) :
  Erring finish (t :: ts) pos
  := by
  obtain ⟨q, hq, rfl, -⟩ := h
  exact erring_behind (hq.trans hrest)

/-- Nothing is found in order. -/
theorem orderly_nil :
  Orderly finish l ([], [])
  := ⟨List.forall_mem_nil _, .nil, List.forall_mem_nil _, .nil⟩

/-- What is found in order behind the first token is found in order. -/
theorem Orderly.cons (h : Orderly finish rest found) (hrest : rest <:+ ts) :
  Orderly finish (t :: ts) found
  where
  statements := by
    intro s hs
    obtain ⟨u, hu, hpos⟩ := h.statements s hs
    exact ⟨u, List.mem_cons_of_mem t (hrest.subset hu), hpos⟩
  statements_sorted := h.statements_sorted
  errors := fun e he => (h.errors e he).cons hrest
  errors_sorted := h.errors_sorted

/-- A statement is in front of those that are found behind it. -/
theorem Orderly.statement {s : Stmt} (h : Orderly finish rest found) (hl : InOrder finish (t :: ts))
    (hpos : s.pos = t.position) (hrest : rest <:+ ts) :
  Orderly finish (t :: ts) (s :: found.1, found.2)
  := by
  have hcons : Orderly finish (t :: ts) found := h.cons hrest
  refine { hcons with
    statements := List.forall_mem_cons.mpr ⟨⟨t, List.mem_cons_self, hpos.symm⟩, hcons.statements⟩
    statements_sorted := List.pairwise_cons.mpr ⟨?_, h.statements_sorted⟩ }
  intro s' hs'
  obtain ⟨u, hu, hpos'⟩ := h.statements s' hs'
  rw [hpos, ← hpos']
  exact (List.pairwise_cons.mp hl.sorted).1 u (hrest.subset hu)

/-- An error is in front of those that are found where parsing goes on. -/
theorem Orderly.error {e : SyntaxError} (hl : InOrder finish (t :: ts))
    (h : Orderly finish (resumeAfter t.position rest) found)
    (hrest : resumeAfter t.position rest <:+ ts)
    (he : Reached finish (t :: ts) rest e.position)
    (hrestarts : restarts t.kind = true → Reached finish ts rest e.position) :
  Orderly finish (t :: ts) (found.1, e :: found.2)
  := by
  have hcons : Orderly finish (t :: ts) found := h.cons hrest
  refine { hcons with
    errors := List.forall_mem_cons.mpr ⟨?_, hcons.errors⟩
    errors_sorted := List.pairwise_cons.mpr ⟨?_, h.errors_sorted⟩ }
  · by_cases hr : restarts t.kind = true
    · obtain ⟨q, hq, -, hpos⟩ := hrestarts hr
      rw [← hpos]
      exact erring_behind hq
    · obtain ⟨q, hq, -, hpos⟩ := he
      exact ⟨q, hq, hpos, fun _ => ⟨List.cons_ne_nil t ts, by simpa using hr⟩⟩
  · intro e' he'
    obtain ⟨q, hq, hleft, hpos⟩ := he
    obtain ⟨q', hq', hpos', hfirst⟩ := h.errors e' he'
    rw [← hpos, ← hpos']
    have hsuffix := resumeAfter_suffix_left t.position rest
    apply (hl.suffix hq).here_before ((hq'.trans hsuffix).trans hleft)
    -- The later error is at the earlier one only if parsing goes on right there.
    rintro rfl
    have hresume : resumeAfter t.position rest = rest :=
      hsuffix.eq_of_length_le (hleft.trans hq').length_le
    have heq : q' = resumeAfter t.position rest := by
      rw [hresume] at hq' ⊢
      exact hq'.eq_of_length_le hleft.length_le
    obtain ⟨hne, hfalse⟩ := hfirst heq
    rw [hresume] at hne hfalse
    have htrue := restarts_of_resumeAfter hresume hne
    rw [hfalse] at htrue
    cases htrue

/-- A statement that is found has read a token. -/
theorem suffix_of_statement {s : Stmt} (h : Parse.statement finish n (t :: ts) = .ok s rest) :
  rest <:+ ts
  := by
  have hspans := Rule.spans_of_ok (r := .statement) trivial h
  have hlength : rest.length + 1 ≤ (t :: ts).length := hspans.least
  apply (List.suffix_cons_iff.mp hspans.suffix).resolve_left
  rintro rfl
  omega

/-- Where the error of a statement is. -/
theorem reached_of_statement {e : SyntaxError}
    (h : Parse.statement finish (n + 7) (t :: ts) = .error e rest) :
  rest <:+ t :: ts ∧ Reached finish (t :: ts) rest e.position
  ∧ (restarts t.kind = true → Reached finish ts rest e.position)
  := by
  have hsited : Sited finish (t :: ts) (t :: ts) (Parse.statement finish (n + 7)) :=
    sitedWith (n + 7) .statement trivial
  have hleaves := hsited (t :: ts) List.suffix_rfl List.suffix_rfl
  rw [h] at hleaves
  refine ⟨hleaves.1, hleaves.2, fun ht => ?_⟩
  have hpasses : Passes finish t ts (Parse.statement finish (n + 7)) := passes_statement ht ts
  unfold Passes at hpasses
  rw [h] at hpasses
  exact hpasses.2

/-- Statements and errors are found in order. -/
theorem orderly_statements (n k : Nat) (hl : InOrder finish l) :
  Orderly finish l (Parse.statements finish (n + 7) k l)
  := by
  induction k generalizing l with
  | zero => exact orderly_nil
  | succ k ih =>
      cases l with
      | nil => exact orderly_nil
      | cons t ts =>
          by_cases ht : t.kind = .semicolon
          · rw [statements_semicolon ht]
            have hsuffix := List.suffix_cons t ts
            exact (ih (hl.suffix hsuffix)).cons List.suffix_rfl
          · cases hrun : Parse.statement finish (n + 7) (t :: ts) with
            | ok s rest =>
                have hsuffix := suffix_of_statement hrun
                rw [statements_ok ht hrun]
                have hrest := ih (hl.suffix (hsuffix.trans (List.suffix_cons t ts)))
                exact hrest.statement hl (pos_of_statement hrun) hsuffix
            | error e rest =>
                obtain ⟨hsuffix, hreached, hbehind⟩ := reached_of_statement hrun
                rw [statements_error ht hrun]
                have hresume := resumeAfter_suffix hsuffix
                have hrest := ih (hl.suffix (hresume.trans (List.suffix_cons t ts)))
                exact hrest.error hl hresume hreached hbehind

end

end Parse

open Source Parse

/-- What is kept of a text and its errors are in order at its tokens. -/
theorem Program.orderly_parse (text file : String) :
  Orderly (finish text) (tokens text)
    ((Program.parse text file).1.statements, (Program.parse text file).2)
  := orderly_statements _ _ ⟨tokens_sorted text, tokens_before_finish text⟩

/-- Where tokens are left, there is a token of the listing, which is the last one if none is
left. -/
theorem Source.exists_token_of_suffix {text : String} {q : List Token} (hq : q <:+ tokens text) :
  ∃ t ∈ listing text, t.position = hereOf (finish text) q
  := by
  cases q with
  | nil => exact ⟨eof text, List.mem_append_right _ List.mem_cons_self, rfl⟩
  | cons t ts => exact ⟨t, List.mem_append_left _ (hq.subset List.mem_cons_self), rfl⟩

/-- Every syntax error of a text is reported at one of its tokens, of which the last one marks its
end. -/
theorem Program.exists_token_of_error {text file : String} {e : SyntaxError}
    (he : e ∈ (Program.parse text file).2) :
  ∃ t ∈ listing text, t.position = e.position
  := by
  obtain ⟨q, hq, hpos, -⟩ := (Program.orderly_parse text file).errors e he
  rw [← hpos]
  exact Source.exists_token_of_suffix hq

/-- The syntax errors of a text are at tokens, of which the last one marks its end, and each is
behind the one before it; and so are the statements that are kept. -/
theorem Program.parse_sorted (text file : String) :
  (Program.parse text file).2.Pairwise (fun e e' => e.position.Before e'.position)
  ∧ (∀ e ∈ (Program.parse text file).2, ∃ t ∈ listing text, t.position = e.position)
  ∧ (Program.parse text file).1.statements.Pairwise (fun s s' => s.pos.Before s'.pos)
  ∧ (∀ s ∈ (Program.parse text file).1.statements, ∃ t ∈ tokens text, t.position = s.pos)
  := by
  have horderly := Program.orderly_parse text file
  exact ⟨horderly.errors_sorted, fun e he => Program.exists_token_of_error he,
    horderly.statements_sorted, horderly.statements⟩

/-- Parsing goes on at the `let` that the first error is reported at. -/
example : (Program.parse "use let = 1" "a").2.map SyntaxError.position = [⟨1, 5⟩, ⟨1, 9⟩]
  := by decide +kernel

end Scriptlet
