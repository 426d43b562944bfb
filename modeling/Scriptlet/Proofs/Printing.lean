import Scriptlet.Proofs.Parsing.Formed
import Scriptlet.Proofs.Printing.Reread

/-!
# Parsing undoes printing

The text of a program that was parsed without errors is parsed as that program again, up to
positions.  For this a name that is the key of an entry has to stand in parentheses: without them
it is a string.
-/

namespace Scriptlet

open Parse
open Source (atStart tokens)
open PrintedWord (tokensOf)

namespace Parse

variable {style : Style}

/-- Statements that are read back one by one are read back one after the other.  A semicolon that
one of them leaves is passed over. -/
theorem statements_sentences {ss : List Stmt} (h : ∀ s ∈ ss, s.Sentence style) :
  ∃ n₀, ∀ n k, n₀ ≤ n → (tokensOf (Stmt.wordsAll style ss)).length ≤ k →
    statements .start n k (tokensOf (Stmt.wordsAll style ss)) = (ss.map (Stmt.reread style), [])
  := by
  induction ss with
  | nil =>
      use 0
      intro n k _ _
      exact statements_nil
  | cons s ss ih =>
      rw [List.forall_mem_cons] at h
      obtain ⟨n₁, ih⟩ := ih h.2
      obtain ⟨m, ⟨n₂, hs⟩, hm⟩ := h.1 (tokensOf (Stmt.wordsAll style ss))
      obtain ⟨-, heof, hsemi⟩ := @Stmt.kindOf_words style s (tokensOf (Stmt.wordsAll style ss))
      have hwords : tokensOf (Stmt.wordsAll style (s :: ss))
          = tokensOf (s.words style) ++ tokensOf (Stmt.wordsAll style ss) := by
        simp [Stmt.wordsAll]
      rw [hwords]
      generalize tokensOf (s.words style) ++ tokensOf (Stmt.wordsAll style ss) = l
        at hs heof hsemi
      use max n₁ n₂
      intro n k hn hk
      have hrun : statement .start n l = .ok (s.reread style) m := hs n (by omega)
      have hlen : m.length + 1 ≤ l.length :=
        (Rule.spans_of_ok (r := .statement) trivial hrun).least
      obtain ⟨k, rfl⟩ : ∃ j, k = j + 1 := ⟨k - 1, by omega⟩
      cases l with
      | nil => exact absurd rfl heof
      | cons t ts =>
          rw [statements_ok hsemi hrun]
          have hrest : statements .start n k m = (ss.map (Stmt.reread style), []) := by
            rcases hm with rfl | rfl
            · exact ih n k (by omega) (by omega)
            · simp only [List.length_cons] at hlen hk
              obtain ⟨k, rfl⟩ : ∃ j, k = j + 1 := ⟨k - 1, by omega⟩
              rw [statements_semicolon rfl]
              exact ih n k (by omega) (by omega)
          rw [hrest]
          rfl

/-- Tokens that statements are read from with enough fuel hold these statements. -/
theorem parseTokens_of_statements {l : List Token} {ss : List Stmt}
    (h : ∃ n₀, ∀ n k, n₀ ≤ n → l.length ≤ k → statements .start n k l = (ss, [])) :
  parseTokens .start l = (ss, [])
  := by
  obtain ⟨n₀, hread⟩ := h
  have hfuel := parseTokens_fuel .start (max n₀ (10 * l.length + 10)) (Nat.le_refl l.length)
    (by omega)
  rw [hread _ _ (by omega) (Nat.le_refl _)] at hfuel
  apply Prod.ext
  · simpa [Change.closing] using hfuel.statements.symm
  · simpa using hfuel.errors

/-- The tokens of printed statements hold these statements. -/
theorem parseTokens_words (hstyle : style.groupsKeys = true) {ss : List Stmt}
    (h : Stmt.AllFormed ss) :
  parseTokens .start (tokensOf (Stmt.wordsAll style ss)) = (ss.map (Stmt.reread style), [])
  := parseTokens_of_statements (statements_sentences (Stmt.AllFormed.sentences hstyle ss h))

/-- An expression that starts with an operand is one statement. -/
theorem statements_expr {finish : Position} {n k : Nat} {l : List Token} {e : Expr}
    (hl : operand (kindOf l) = true) (hk : l.length ≤ k)
    (h : Parse.binary finish n assignLevel l = .ok e []) :
  statements finish (n + 2) k l = ([.expr (hereOf finish l) e], [])
  := by
  have hrun : Parse.statement finish (n + 2) l = .ok (.expr (hereOf finish l) e) [] :=
    statement_expr hl h
  cases l with
  | nil => cases hl
  | cons t ts =>
      have ht : t.kind ≠ .semicolon := by
        intro ht
        rw [kindOf_cons, ht] at hl
        cases hl
      obtain ⟨k, rfl⟩ : ∃ j, k = j + 1 := Nat.exists_eq_add_one.mpr (by simp at hk; omega)
      rw [statements_ok ht hrun, statements_nil]

/-- The tokens of an expression that starts with an operand hold one statement. -/
theorem parseTokens_expr {finish : Position} {n : Nat} {l : List Token} {e : Expr}
    (hl : operand (kindOf l) = true) (hn : n = 10 * l.length + 8)
    (h : Parse.binary finish n assignLevel l = .ok e []) :
  parseTokens finish l = ([.expr (hereOf finish l) e], [])
  := by
  subst hn
  exact statements_expr hl (Nat.le_refl _) h

/-- The tokens that an expression is read from, if they start with an operand, hold one
statement. -/
theorem parseTokens_reads {l : List Token} {e : Expr} (hl : operand (kindOf l) = true)
    (h : Reads (.binary assignLevel) l e []) :
  parseTokens .start l = ([.expr (hereOf .start l) e], [])
  := by
  obtain ⟨n₀, h⟩ := h
  apply parseTokens_of_statements
  use n₀ + 2
  intro n k hn hk
  obtain ⟨n, rfl⟩ : ∃ j, n = j + 2 := ⟨n - 2, by omega⟩
  exact statements_expr hl hk (h n (by omega))

end Parse

/-- The text of a program that was parsed without errors is parsed without errors.  It holds the
same statements, up to positions and the digits of number literals. -/
theorem Program.parse_print (style : Style) (hstyle : style.groupsKeys = true)
    (text file file' : String) (h : (Program.parse text file).2 = []) :
  (Program.parse ((Program.parse text file).1.print style) file').2 = []
    ∧ (Program.parse ((Program.parse text file).1.print style) file').1.statements.map Stmt.bare
      = (Program.parse text file).1.statements.map (Stmt.map (fun _ => .start) style.value)
  := by
  have hformed := Program.parse_formed h
  generalize (Program.parse text file).1 = program at hformed
  have hvalid := Stmt.wordsAll_valid style program.statements hformed
  have htokens : (tokens (program.print style)).map atStart
      = tokensOf (Stmt.wordsAll style program.statements) := Source.tokens_text hvalid
  have hread := parseTokens_words hstyle hformed
  rw [← htokens] at hread
  rw [Program.parse_eq]
  obtain ⟨hfound, herrors⟩ := parseTokens_move (f := fun _ => .start)
    (Source.finish (program.print style)) .start (tokens (program.print style))
    (.inr (by rw [hread]))
  rw [hread] at hfound herrors
  constructor
  · exact herrors.mp rfl
  · exact hfound.symm

/-- A decorated function with a negative number, whose kept tree is printed and read again. -/
theorem Program.parse_print_decorated :
  (Program.parse "@d let x = \x7b(y): -1\x7d;" "a").2 = []
    ∧ (Program.parse ((Program.parse "@d let x = \x7b(y): -1\x7d;" "a").1.print
        (.decimal true)) "b").2 = []
    ∧ (Program.parse ((Program.parse "@d let x = \x7b(y): -1\x7d;" "a").1.print
        (.decimal true)) "b").1.statements.map Stmt.bare
      = (Program.parse "@d let x = \x7b(y): -1\x7d;" "a").1.statements.map
        (Stmt.map (fun _ => .start) (Style.decimal true).value)
  := by
  have h : (Program.parse "@d let x = \x7b(y): -1\x7d;" "a").2 = [] :=
    List.eq_nil_of_length_eq_zero (by decide +kernel)
  exact ⟨h, Program.parse_print (.decimal true) rfl _ "a" "b" h⟩

/-- Without parentheses around keys, a name in parentheses that is a key is read back as a
string. -/
theorem Program.exists_not_parse_print :
  ∃ text file, (Program.parse text file).2 = []
    ∧ ¬ ((Program.parse ((Program.parse text file).1.print (.decimal false)) file).2 = []
      ∧ (Program.parse ((Program.parse text file).1.print (.decimal false)) file).1.statements.map
          Stmt.bare
        = (Program.parse text file).1.statements.map
          (Stmt.map (fun _ => .start) (Style.decimal false).value))
  := by
  use "({(x): 1});", "a"
  refine ⟨List.eq_nil_of_length_eq_zero (by decide +kernel), ?_⟩
  rintro ⟨-, hfound⟩
  -- The key has become a string, and is printed as one.
  have hprint := congrArg (fun ss => Program.print (.decimal false) ⟨ss, "a"⟩) hfound
  revert hprint
  decide +kernel

end Scriptlet
