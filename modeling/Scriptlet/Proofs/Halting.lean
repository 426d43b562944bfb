import Scriptlet.Proofs.Anchors
import Scriptlet.Proofs.Parsing.Halting

/-!
# Parsing comes to an end

The loop over the statements of a source reads all its tokens, each round at least one, and with
the fuel that it is given no rule of the grammar runs short.  What the loop goes through is said
without fuel: a rule comes to an outcome if it does so with any fuel that is enough.
-/

namespace Scriptlet

namespace Parse

variable {finish : Position} {l rest : List Token} {t : Token} {ts : List Token} {n : Nat}

/-- Whether a rule comes to an outcome from the tokens `l`, with whatever fuel is enough. -/
def Comes (finish : Position) (r : Rule) (l : List Token)
    (outcome : EStateM.Result SyntaxError (List Token) r.Result) : Prop :=
  ∀ n, enough l ≤ n → r.run finish n l = outcome

/-- The rounds of the loop over the statements of a source, up to its end, where no tokens are
left: the statements it finds and the errors of the others. -/
inductive Rounds (finish : Position) : List Token → List Stmt → List SyntaxError → Prop where
  | done : Rounds finish [] [] []
  | semicolon {t : Token} {ts : List Token} {ss : List Stmt} {es : List SyntaxError}
    (ht : t.kind = .semicolon) (h : Rounds finish ts ss es) :
    Rounds finish (t :: ts) ss es
  | statement {t : Token} {ts rest : List Token} {s : Stmt} {ss : List Stmt}
    {es : List SyntaxError} (ht : t.kind ≠ .semicolon)
    (hrun : Comes finish .statement (t :: ts) (.ok s rest)) (h : Rounds finish rest ss es) :
    Rounds finish (t :: ts) (s :: ss) es
  | error {t : Token} {ts rest : List Token} {e : SyntaxError} {ss : List Stmt}
    {es : List SyntaxError} (ht : t.kind ≠ .semicolon)
    (hrun : Comes finish .statement (t :: ts) (.error e rest))
    (h : Rounds finish (resumeAfter t.position rest) ss es) :
    Rounds finish (t :: ts) ss (e :: es)

/-- With enough fuel a rule comes to what it does with any fuel that is enough. -/
theorem comes_run {r : Rule} (hr : r.Starts l) (hn : enough l ≤ n) :
  Comes finish r l (r.run finish n l)
  := fun _ hn' => run_eq_of_enough hr hn' hn

/-- Every rule comes to an outcome, and not for lack of fuel. -/
theorem exists_comes {r : Rule} (hr : r.Starts l) :
  ∃ outcome, Comes finish r l outcome
    ∧ ∀ e rest, outcome = .error e rest → e.flaw ≠ .tooDeep
  := ⟨r.run finish (enough l) l, comes_run hr le_rfl,
    fun _ _ h => flaw_ne_tooDeep hr le_rfl h⟩

/-- A rule comes to one outcome. -/
theorem Comes.unique {r : Rule} {o o' : EStateM.Result SyntaxError (List Token) r.Result}
    (h : Comes finish r l o) (h' : Comes finish r l o') :
  o = o'
  := (h _ le_rfl).symm.trans (h' _ le_rfl)

/-- A rule that reads a token when it succeeds leaves what stands behind one. -/
theorem exists_cons_of_ok {r : Rule} (hr : r.Starts l) (hleast : 0 < r.least) {a : r.Result}
    (h : r.run finish n l = .ok a rest) :
  ∃ t ts, l = t :: ts ∧ rest <:+ ts
  := by
  have hspans := Rule.spans_of_ok hr h
  have hlength := hspans.least
  cases l with
  | nil =>
      rw [List.length_nil] at hlength
      omega
  | cons t ts =>
      refine ⟨t, ts, rfl, (List.suffix_cons_iff.mp hspans.suffix).resolve_left ?_⟩
      rintro rfl
      omega

/-- After an error in a statement parsing goes on behind the first token of it. -/
theorem Comes.suffix_resumeAfter {e : SyntaxError}
    (h : Comes finish .statement (t :: ts) (.error e rest)) :
  resumeAfter t.position rest <:+ ts
  := resumeAfter_suffix (Rule.fails_of_error (r := .statement) trivial (h _ le_rfl)).suffix

/-- The loop goes through its rounds. -/
theorem rounds_statements {tries : Nat} (hn : enough l ≤ n) (htries : l.length ≤ tries) :
  Rounds finish l (statements finish n tries l).1 (statements finish n tries l).2
  := by
  induction tries generalizing l with
  | zero =>
      obtain rfl : l = [] := List.eq_nil_of_length_eq_zero (Nat.le_zero.mp htries)
      exact .done
  | succ tries ih =>
      cases l with
      | nil => exact .done
      | cons t ts =>
          have hlater {m : List Token} (hm : m <:+ ts) :
            Rounds finish m (statements finish n tries m).1 (statements finish n tries m).2
            := by
            have hlength := hm.length_le
            simp only [enough, List.length_cons] at hn htries
            refine ih ?_ (by omega)
            unfold enough
            omega
          by_cases ht : t.kind = .semicolon
          · rw [statements_semicolon ht]
            exact .semicolon ht (hlater List.suffix_rfl)
          · cases hrun : statement finish n (t :: ts) with
            | ok s rest =>
                have hcomes : Comes finish .statement (t :: ts) (.ok s rest) :=
                  hrun ▸ comes_run (r := .statement) trivial hn
                rw [statements_ok ht hrun]
                exact .statement ht hcomes (hlater (suffix_of_statement hrun))
            | error e rest =>
                have hcomes : Comes finish .statement (t :: ts) (.error e rest) :=
                  hrun ▸ comes_run (r := .statement) trivial hn
                rw [statements_error ht hrun]
                exact .error ht hcomes (hlater hcomes.suffix_resumeAfter)

/-- The loop goes through one row of rounds only. -/
theorem Rounds.unique {ss ss' : List Stmt} {es es' : List SyntaxError} (h : Rounds finish l ss es)
    (h' : Rounds finish l ss' es') :
  ss = ss' ∧ es = es'
  := by
  induction h generalizing ss' es' with
  | done =>
      cases h'
      exact ⟨rfl, rfl⟩
  | semicolon ht _ ih =>
      cases h' with
      | semicolon _ h' => exact ih h'
      | statement ht' => exact absurd ht ht'
      | error ht' => exact absurd ht ht'
  | statement ht hrun _ ih =>
      cases h' with
      | semicolon ht' => exact absurd ht' ht
      | statement _ hrun' h' =>
          cases hrun.unique hrun'
          obtain ⟨rfl, rfl⟩ := ih h'
          exact ⟨rfl, rfl⟩
      | error _ hrun' => cases hrun.unique hrun'
  | error ht hrun _ ih =>
      cases h' with
      | semicolon ht' => exact absurd ht' ht
      | statement _ hrun' => cases hrun.unique hrun'
      | error _ hrun' h' =>
          cases hrun.unique hrun'
          obtain ⟨rfl, rfl⟩ := ih h'
          exact ⟨rfl, rfl⟩

/-- Each statement and each error is that of a token of its own. -/
theorem Rounds.length_le {ss : List Stmt} {es : List SyntaxError} (h : Rounds finish l ss es) :
  ss.length + es.length ≤ l.length
  := by
  induction h with
  | done => exact le_rfl
  | semicolon _ _ ih =>
      rw [List.length_cons]
      omega
  | statement _ hrun _ ih =>
      have := (suffix_of_statement (hrun _ le_rfl)).length_le
      rw [List.length_cons, List.length_cons]
      omega
  | error _ hrun _ ih =>
      have := hrun.suffix_resumeAfter.length_le
      rw [List.length_cons, List.length_cons]
      omega

/-- No error is one of missing fuel. -/
theorem Rounds.flaw_ne_tooDeep {ss : List Stmt} {es : List SyntaxError}
    (h : Rounds finish l ss es) :
  ∀ e ∈ es, e.flaw ≠ .tooDeep
  := by
  induction h with
  | done => exact List.forall_mem_nil _
  | semicolon _ _ ih | statement _ _ _ ih => exact ih
  | error _ hrun _ ih =>
      exact List.forall_mem_cons.mpr
        ⟨Parse.flaw_ne_tooDeep (r := .statement) trivial le_rfl (hrun _ le_rfl), ih⟩

/-- A statement that fails has read no token exactly if what it leaves starts where it does. -/
theorem here_eq_iff (hl : InOrder finish (t :: ts)) (hrest : rest <:+ t :: ts) :
  hereOf finish rest = t.position ↔ rest = t :: ts
  := by
  constructor
  · intro hpos
    rcases List.suffix_cons_iff.mp hrest with heq | hsuffix
    · exact heq
    · exfalso
      cases rest with
      | nil => exact (hl.before t List.mem_cons_self).ne hpos.symm
      | cons u us =>
          have hu : u ∈ ts := hsuffix.subset List.mem_cons_self
          exact (List.rel_of_pairwise_cons hl.sorted hu).ne hpos.symm
  · rintro rfl
    rfl

end Parse

open Parse

/-- Whether a rule reads no further than to the token `mark` when that stands behind the tokens `l`:
it does what it does without it, and leaves it. -/
structure Leaving (finish : Position) (mark : Token) (n : Nat) (r : Rule) (l : List Token) :
    Prop where
  ok (a : r.Result) (rest : List Token) (h : r.run finish n l = .ok a rest) :
    r.run finish n (l ++ [mark]) = .ok a (rest ++ [mark])
  error (e : SyntaxError) (rest : List Token) (h : r.run finish n l = .error e rest) :
    ∃ e', r.run finish n (l ++ [mark]) = .error e' (rest ++ [mark]) ∧ e'.position = e.position

/-- No rule reads the token at the end of a text. -/
theorem leaving_eof (text : String) {r : Rule} {l : List Token} {n : Nat} (hr : r.Starts l)
    (hn : enough l ≤ n) :
  Leaving (Source.finish text) (Source.eof text) n r l
  := by
  have h : Settles [Source.eof text] (r.run (Source.finish text) n)
      (r.run (Source.finish text) n) l := settles_of_enough (.inr rfl) hn hn hr
  unfold Settles at h
  constructor
  · intro a rest hrun
    rwa [hrun] at h
  · intro e rest hrun
    rw [hrun] at h
    obtain ⟨-, e', hrun', hpos, -⟩ := h
    exact ⟨e', hrun', hpos⟩

/-- Parsing comes to an end.  The loop over the statements of a text goes through its rounds up to
the end of the text, and more fuel and more tries make no difference.  Every rule comes to an
outcome, a statement, an expression and a block that are parsed hold a token, and no rule reads
the token that marks the end.  After an error the loop goes on behind the token that the statement
starts with, which is still there exactly if nothing was read, so that there are no more statements
and errors than tokens. -/
theorem Program.parse_halts (text file : String) :
  (Rounds (Source.finish text) (Source.tokens text) (Program.parse text file).1.statements
      (Program.parse text file).2
    ∧ ∀ n tries, enough (Source.tokens text) ≤ n → (Source.tokens text).length ≤ tries →
      Parse.statements (Source.finish text) n tries (Source.tokens text)
        = ((Program.parse text file).1.statements, (Program.parse text file).2))
  ∧ (∀ (r : Rule) (l : List Token), r.Starts l → ∃ outcome, Comes (Source.finish text) r l outcome
    ∧ ∀ e rest, outcome = .error e rest → e.flaw ≠ .tooDeep)
  ∧ (∀ (r : Rule) (l rest : List Token) (n : Nat) (a : r.Result),
    r = .statement ∨ (∃ level, r = .binary level) ∨ r = .block →
      r.run (Source.finish text) n l = .ok a rest → ∃ t ts, l = t :: ts ∧ rest <:+ ts)
  ∧ (∀ (r : Rule) (l : List Token) (n : Nat), r.Starts l → enough l ≤ n →
    Leaving (Source.finish text) (Source.eof text) n r l)
  ∧ (∀ (t : Token) (ts rest : List Token) (n : Nat) (e : SyntaxError),
    t :: ts <:+ Source.tokens text →
      Parse.statement (Source.finish text) n (t :: ts) = .error e rest →
        (hereOf (Source.finish text) rest = t.position ↔ rest = t :: ts)
        ∧ resumeAfter t.position rest <:+ ts)
  ∧ (Program.parse text file).1.statements.length + (Program.parse text file).2.length
    ≤ (Source.tokens text).length
  ∧ ∀ e ∈ (Program.parse text file).2, e.flaw ≠ .tooDeep
  := by
  have hrounds : Rounds (Source.finish text) (Source.tokens text)
      (Program.parse text file).1.statements (Program.parse text file).2 :=
    rounds_statements le_rfl le_rfl
  have horder : InOrder (Source.finish text) (Source.tokens text) :=
    ⟨Source.tokens_sorted text, Source.tokens_before_finish text⟩
  refine ⟨⟨hrounds, fun n tries hn htries => ?_⟩, fun r l hr => exists_comes hr,
    fun r l rest n a hrule hrun => ?_, fun r l n hr hn => leaving_eof text hr hn,
    fun t ts rest n e hsuffix hrun => ?_, hrounds.length_le, hrounds.flaw_ne_tooDeep⟩
  · obtain ⟨hstatements, herrors⟩ := (rounds_statements hn htries).unique hrounds
    exact Prod.ext hstatements herrors
  · obtain rfl | ⟨level, rfl⟩ | rfl := hrule
    · exact exists_cons_of_ok (r := .statement) trivial Nat.one_pos hrun
    · exact exists_cons_of_ok (r := .binary level) trivial Nat.one_pos hrun
    · exact exists_cons_of_ok (r := .block) trivial Nat.one_pos hrun
  · have hrest := (Rule.fails_of_error (r := .statement) trivial hrun).suffix
    exact ⟨here_eq_iff (horder.suffix hsuffix) hrest, resumeAfter_suffix hrest⟩

/-- A text with an error in its first statement, which is over at the semicolon. -/
theorem Program.parse_halts_let :
  let tokens : List Token := [⟨.letWord, "let", ⟨1, 1⟩⟩, ⟨.assign, "=", ⟨1, 5⟩⟩,
    ⟨.identifier, "x", ⟨1, 7⟩⟩, ⟨.semicolon, ";", ⟨1, 8⟩⟩, ⟨.identifier, "y", ⟨1, 10⟩⟩]
  Source.tokens "let = x; y" = tokens
    ∧ Parse.statement (Source.finish "let = x; y") 60 tokens
      = .error ⟨.expected .nameAfterLet (some "="), ⟨1, 5⟩⟩ tokens.tail
    ∧ resumeAfter ⟨1, 1⟩ tokens.tail <:+ tokens.tail
    ∧ (∃ t ts, tokens.drop 4 = t :: ts ∧ [] <:+ ts)
    ∧ Leaving (Source.finish "let = x; y") (Source.eof "let = x; y") 60 .statement tokens
    ∧ (∃ outcome, Comes (Source.finish "let = x; y") .conditional
        (⟨.ifWord, "if", ⟨1, 1⟩⟩ :: tokens) outcome)
    ∧ Parse.statements (Source.finish "let = x; y") 60 5 tokens
      = ((Program.parse "let = x; y" "a").1.statements, (Program.parse "let = x; y" "a").2)
  := by
  intro tokens
  have htokens : Source.tokens "let = x; y" = tokens := by decide +kernel
  have herror : Parse.statement (Source.finish "let = x; y") 60 tokens
      = .error ⟨.expected .nameAfterLet (some "="), ⟨1, 5⟩⟩ tokens.tail := rfl
  have hok : Parse.statement (Source.finish "let = x; y") 60 (tokens.drop 4)
      = .ok (.expr ⟨1, 10⟩ (.name ⟨1, 10⟩ "y")) [] := rfl
  obtain ⟨⟨-, hmore⟩, hcomes, hread, hleave, hresume, -, -⟩ :=
    Program.parse_halts "let = x; y" "a"
  rw [htokens] at hmore hresume
  obtain ⟨outcome, hout, -⟩ := hcomes .conditional (⟨.ifWord, "if", ⟨1, 1⟩⟩ :: tokens) rfl
  exact ⟨htokens, herror, (hresume _ _ _ _ _ List.suffix_rfl herror).2,
    hread .statement _ _ 60 _ (.inl rfl) hok, hleave .statement tokens 60 trivial (by decide),
    ⟨outcome, hout⟩, hmore 60 5 (by decide) (by decide)⟩

end Scriptlet
