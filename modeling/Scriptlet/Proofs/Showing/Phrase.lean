import Scriptlet.Proofs.Printing
import Scriptlet.Proofs.Showing.Scan

/-!
# Literals that are read back

The tokens of a literal are read as that literal, up to its positions, wherever something is closed
behind them.  A key is read as an expression, for it is no name.
-/

namespace Scriptlet

namespace Parse

/-- Whether a token of a kind starts a literal. -/
def opening (kind : TokenKind) : Bool :=
  [.nullWord, .trueWord, .falseWord, .string, .leftBracket, .leftBrace].contains kind

/-- What starts a literal is no operator in front of one, closes nothing and is no name. -/
theorem ofToken?_of_opening {kind : TokenKind} (h : opening kind = true) :
  UnaryOp.ofToken? kind = none ∧ closing kind = false ∧ kind ≠ .identifier
  := by
  cases kind
  all_goals first
    | exact absurd h (by decide)
    | exact ⟨rfl, rfl, by rintro ⟨⟩⟩

/-- Whether tokens start as a literal and are read as an expression if something is closed behind
them. -/
def Phrase (ts : List Token) (e : Expr) : Prop :=
  ∀ rest, opening (kindOf (ts ++ rest)) = true
    ∧ (closing (kindOf rest) = true → Reads (.binary assignLevel) (ts ++ rest) e rest)

variable {ts rest : List Token} {e : Expr} {words : List (List Token)}

/-- Tokens that are read as an operand are read as an expression where something is closed behind
them. -/
theorem phrase_of_primary
    (h : ∀ rest, opening (kindOf (ts ++ rest)) = true ∧ Reads .primary (ts ++ rest) e rest) :
  Phrase ts e
  := by
  intro rest
  obtain ⟨hopening, hprimary⟩ := h rest
  refine ⟨hopening, fun hrest => ?_⟩
  exact reads_binary_of_unary (reads_unary_of_primary hprimary (ofToken?_of_opening hopening).1
    (ofToken?_of_closing hrest).2.2) hrest _

/-- No literal starts with a token that closes something. -/
theorem Phrase.ne {kind : TokenKind} (h : Phrase ts e) (hkind : closing kind = true)
    (rest : List Token) :
  kindOf (ts ++ rest) ≠ kind
  := by
  intro heq
  have hclosing := (ofToken?_of_opening (h rest).1).2.1
  rw [heq, hkind] at hclosing
  cases hclosing

/-- The elements of an array are read one by one. -/
theorem reads_elements {es : List Expr} (h : List.Forall₂ Phrase words es) :
  Reads (.expressions .rightBracket) ([mark .comma].intercalate words ++ mark .rightBracket :: rest)
    es (mark .rightBracket :: rest)
  := by
  induction h with
  | nil => exact reads_expressions_nil rfl
  | @cons ts e words es he hrest ih =>
      cases hrest with
      | nil =>
          rw [List.intercalate_singleton]
          exact reads_expressions_last (he.ne rfl _) (by rintro ⟨⟩) ((he _).2 rfl)
      | cons =>
          rw [List.intercalate_cons_cons, List.append_assoc, List.append_assoc]
          exact reads_expressions_cons (he.ne rfl _) ((he _).2 rfl) ih

/-- The entries of a hash are read one by one. -/
theorem reads_pairs {entries : List (Expr × Expr)}
    (h : List.Forall₂ (fun ws entry => ∃ ks vs, ws = ks ++ mark .colon :: vs
      ∧ Phrase ks entry.1 ∧ Phrase vs entry.2) words entries) :
  Reads .hashEntries ([mark .comma].intercalate words ++ mark .rightBrace :: rest) entries
    (mark .rightBrace :: rest)
  := by
  have hkey {ks : List Token} {key : Expr} (hk : Phrase ks key) (l : List Token) :
      Reads .hashKey (ks ++ mark .colon :: l) key (mark .colon :: l) := by
    refine reads_hashKey ?_ ((hk _).2 rfl)
    rintro ⟨hname, -⟩
    exact (ofToken?_of_opening (hk _).1).2.2 hname
  induction h with
  | nil => exact reads_hashEntries_nil rfl
  | @cons ws entry words entries hentry hrest ih =>
      obtain ⟨key, value⟩ := entry
      obtain ⟨ks, vs, rfl, hk, hv⟩ := hentry
      cases hrest with
      | nil =>
          rw [List.intercalate_singleton, List.append_assoc]
          exact reads_hashEntries_last (hk.ne rfl _) (by rintro ⟨⟩) (hkey hk _) ((hv _).2 rfl)
      | cons =>
          rw [List.intercalate_cons_cons, List.append_assoc, List.append_assoc, List.append_assoc]
          exact reads_hashEntries_cons (hk.ne rfl _) (hkey hk _) ((hv _).2 rfl) ih

end Parse

open Parse
open Source (atStart tokens)

/-- The tokens of a literal are read as that literal. -/
theorem Expr.Spells.phrase {h : Heap} {e : Expr} {v : Value} (he : e.Spells h v) :
  Phrase e.marks e.bare
  := by
  have hP : h.Hereditary fun e _ => Phrase e.marks e.bare := by
    constructor
    case null => exact fun _ => phrase_of_primary fun _ => ⟨rfl, reads_primary_null⟩
    case bool =>
      intro pos b
      refine phrase_of_primary fun _ => ⟨?_, reads_primary_bool b⟩
      cases b
      all_goals rfl
    case str => exact fun _ s _ => phrase_of_primary fun _ => ⟨rfl, reads_primary_string s⟩
    case array =>
      intro pos es i _ hes
      have hwords : List.Forall₂ Phrase (es.map Expr.marks) (es.map Expr.bare) :=
        forall₂_map_map hes fun _ _ he => he.2
      refine phrase_of_primary fun rest => ⟨rfl, ?_⟩
      rw [Expr.bare_array, Expr.marks, Expr.marksAll_eq, List.append_assoc]
      exact reads_primary_array (reads_elements hwords)
    case hash =>
      intro pos entries i _ hentries
      have hwords : List.Forall₂
          (fun ws entry => ∃ ks vs, ws = ks ++ mark .colon :: vs ∧ Phrase ks entry.1
            ∧ Phrase vs entry.2)
          (entries.map fun entry => entry.1.marks ++ mark .colon :: entry.2.marks)
          (entries.map fun entry => (entry.1.bare, entry.2.bare)) :=
        forall₂_map_map hentries fun _ _ hentry => ⟨_, _, rfl, hentry.1.2, hentry.2.2⟩
      refine phrase_of_primary fun rest => ⟨rfl, ?_⟩
      rw [Expr.bare_hash, Expr.marks, Expr.marksEntries_eq, List.append_assoc]
      exact reads_primary_hash (reads_pairs hwords)
  exact hP.spells e he

/-- A value that is shown in parentheses is parsed as one statement, a literal that stands for the
value. -/
theorem Expr.Spells.exists_parse {h : Heap} {e : Expr} {v : Value} (he : e.Spells h v)
    (file : String) :
  ∃ pos e', Program.parse ("(" ++ h.inspect v ++ ")") file = (⟨[.expr pos e'], file⟩, [])
    ∧ e'.Spells h v
  := by
  have hprimary : Reads .primary (mark .leftParen :: (e.marks ++ [mark .rightParen])) e.bare [] :=
    reads_primary_group ((he.phrase _).2 rfl)
  have hunary := reads_unary_of_primary hprimary rfl ⟨by rintro ⟨⟩, by rintro ⟨⟩⟩
  have hbinary : Reads (.binary assignLevel) (mark .leftParen :: (e.marks ++ [mark .rightParen]))
      e.bare [] :=
    reads_binary hunary (reads_binaryRest_stop rfl (by rintro ⟨⟩))
  have hread := parseTokens_reads rfl hbinary
  rw [← he.tokens_grouped] at hread
  rw [Program.parse_eq]
  generalize "(" ++ h.inspect v ++ ")" = text at hread
  obtain ⟨hfound, herrors⟩ := parseTokens_move (f := fun _ => .start) (Source.finish text) .start
    (tokens text) (.inr (congrArg Prod.snd hread))
  change (parseTokens .start ((tokens text).map atStart)).1 = _ at hfound
  change (parseTokens .start ((tokens text).map atStart)).2 = [] ↔ _ at herrors
  rw [hread] at hfound herrors
  obtain ⟨s, hs, hbare⟩ := List.map_eq_singleton_iff.mp hfound.symm
  obtain ⟨pos, e', rfl, he'⟩ := Stmt.exists_of_bare hbare
  refine ⟨pos, e', ?_, ?_⟩
  · rw [hs, herrors.mp rfl]
  · rw [← Expr.spells_bare, he', Expr.spells_bare]
    exact he

end Scriptlet
