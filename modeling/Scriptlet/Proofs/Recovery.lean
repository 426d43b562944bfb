import Mathlib.Data.List.Infix
import Scriptlet.Proofs.Lexing.Join
import Scriptlet.Proofs.Lexing.Order
import Scriptlet.Proofs.Parsing.Statements

/-!
# Recovery from errors

A semicolon on a line of its own keeps the statements behind it from whatever is wrong with those
in front of it.
-/

namespace Scriptlet

namespace Parse

open Source (tokens finish lineFeeds Unterminated)

/-- The braces that are closed without having been opened are counted by their kinds. -/
theorem excess_eq_count (l : List Token) :
  excess l = (l.countP fun t => t.kind = .rightBrace) - (l.countP fun t => t.kind = .leftBrace)
  := by
  induction l with
  | nil => rfl
  | cons t l ih =>
      rw [excess_cons, ih, List.countP_cons, List.countP_cons]
      cases t.kind
      all_goals simp [braces]
      all_goals omega

/-- What is behind a semicolon that ends tokens in which every brace is closed. -/
theorem excess_suffix_nonneg {l : List Token} {sep : Token} (hsep : sep.kind = .semicolon)
    (h : ∀ s, s <:+ l → 0 ≤ excess s) (s : List Token) (hs : s <:+ l ++ [sep]) :
  0 ≤ excess s
  := by
  rcases List.suffix_concat_iff.mp hs with rfl | ⟨s', rfl, hs'⟩
  · simp
  · have := h s' hs'
    simpa [excess_append, hsep, braces] using this

/-- Parsing goes on at a token at which it can go on after an error. -/
theorem followedBy_firm {v : List Token} {finish finish' : Position}
    (hv : restarts (kindOf v) = true) {m : List Token}
    (hm : (Change.followedBy v finish finish').ends m) :
  m = v
  := by
  obtain ⟨p, rfl, hp⟩ := hm
  rcases p with _ | ⟨t, p⟩
  · rfl
  · have ht : t.kind = .semicolon := hp t List.mem_cons_self
    simp [restarts, ht] at hv

/-- What is parsed in front of tokens that restart a statement goes on as before once an error is
passed over. -/
theorem followedBy_resumes {l v : List Token} {finish finish' : Position}
    (hv : restarts (kindOf v) = true) (hpos : Distinct (l ++ v)) :
  (Change.followedBy v finish finish').Resumes l
  := by
  rcases v with _ | ⟨u, v⟩
  · cases hv
  · have hsemi : u.kind ≠ .semicolon := by
      rintro hu
      simp [restarts, hu] at hv
    have hresume : resume (u :: v) = u :: v := by
      rw [kindOf_cons] at hv
      simp [resume_cons, hsemi, hv]
    constructor
    · intro m hm
      rw [followedBy_firm hv hm]
      simp only [restarts, List.contains_eq_mem, decide_eq_true_eq] at hv
      simp only [firm, List.mem_cons] at hv ⊢
      exact .inr (.inr hv)
    · intro m hm
      rw [followedBy_firm hv hm, hresume]
      exact ⟨[], rfl, by simp⟩
    · intro t ht m hm
      have hne : u.position ≠ t.position := by
        intro heq
        unfold Distinct at hpos
        rw [List.map_append] at hpos
        have hdisj := (List.nodup_append.mp hpos).2.2
        exact hdisj _ (List.mem_map_of_mem ht) _ (List.mem_map_of_mem List.mem_cons_self)
          heq.symm
      rw [followedBy_firm hv hm]
      simp only [resumeAfter, List.head?_cons, Option.any_some, Change.followedBy, id_eq, hne,
        decide_false, Bool.false_eq_true, ↓reduceIte, hresume]
      exact ⟨[], rfl, by simp⟩

end Parse

open Parse Source

/-- The statements behind a semicolon on a line of its own are found whatever is wrong in front of
it, if every brace opened there is closed there and every string is, and if no decorator stands
there or a token that can only start a statement follows. -/
theorem Program.parse_recovers (text other file file' file'' : String)
    (hstrings : ∀ t ∈ tokens text, ¬ Unterminated t)
    (hbraces : ∀ s, s <:+ tokens text →
      (s.countP fun t => t.kind = .leftBrace) ≤ (s.countP fun t => t.kind = .rightBrace))
    (hother : (Program.parse other file').2 = [])
    (hstart : (∀ t ∈ tokens text, t.kind ≠ .decorator)
      ∨ ∃ t ∈ (tokens other).head?, t.kind ∈ [.letWord, .returnWord, .useWord, .decorator]) :
  (Program.parse (text ++ "\n;\n" ++ other) file).1.statements
      = (Program.parse text file'').1.statements
        ++ (Program.parse other file').1.statements.map
          (Stmt.map (Position.down (lineFeeds (text ++ "\n;\n"))) id)
    ∧ ((Program.parse (text ++ "\n;\n" ++ other) file).2 = []
      ↔ (Program.parse text file'').2 = [])
  := by
  have hjoin := tokens_join text other hstrings
  have hnodup := tokens_nodup (text ++ "\n;\n" ++ other)
  rw [hjoin] at hnodup
  simp only [Program.parse_eq] at hother ⊢
  rw [hjoin]
  generalize finish (text ++ "\n;\n" ++ other) = last
  obtain ⟨hfirst, hfirst'⟩ := parseTokens_semicolons (finish text) last (tokens text)
    (u := [separator text]) (by simp [separator])
  obtain ⟨hsecond, hsecond'⟩ :=
    parseTokens_move (finish other) last (tokens other)
      (.inl (Position.down_injective (lineFeeds (text ++ "\n;\n"))))
  -- With the separator behind it, the first text ends in a semicolon and closes what it opens.
  have hterm : Terminated (tokens text ++ [separator text]) := by
    rw [terminated_append (by simp), terminated_singleton]
    rfl
  have hclosed : ∀ s, s <:+ tokens text ++ [separator text] → 0 ≤ excess s := by
    apply excess_suffix_nonneg rfl
    intro s hs
    have := hbraces s hs
    rw [excess_eq_count]
    omega
  -- No statement can take in the separator, or none that does can be gone on with.
  have hcases : ¬ Decorates (tokens text ++ [separator text])
      ∨ restarts (kindOf (below text other)) = true := by
    rcases hstart with hstart | ⟨t, ht, hkind⟩
    · left
      rintro ⟨t, ht, hkind⟩
      rcases List.mem_append.mp ht with ht | ht
      · exact hstart t ht hkind
      · obtain rfl := List.mem_singleton.mp ht
        cases hkind
    · right
      cases hother : tokens other with
      | nil => simp [hother] at ht
      | cons u us =>
          obtain rfl : u = t := by simpa [hother] using ht
          simpa [below, hother, restarts] using hkind
  have hseparates :
    (Change.followedBy (below text other) last last).Separates (tokens text ++ [separator text])
    := by
    constructor
    · exact .inr (.inr hterm)
    · exact .inr hclosed
    · rcases hcases with hdec | hrestarts
      · exact .inr fun hopen => hdec hopen.decorates
      · exact .inl (followedBy_resumes hrestarts hnodup).firm.quiet
  have hrecovers :
    (Change.followedBy (below text other) last last).Recovers (tokens text ++ [separator text])
    := by
    rcases hcases with hdec | hrestarts
    · right
      constructor
      · exact hdec
      · exact hnodup.sublist ((List.sublist_append_left _ _).map _)
      · exact .inr hterm
      · exact hclosed
    · exact .inl (followedBy_resumes hrestarts hnodup)
  obtain ⟨hfound, herrors⟩ := parseTokens_append last last _ _ hseparates (.inl hrecovers)
  constructor
  · rw [hfound, hfirst, below, hsecond]
  · rw [herrors, hfirst', below, hsecond']
    simp [hother]

/-- A `let` without a name in front of a semicolon on a line of its own, and a name behind it. -/
theorem Program.parse_recovers_from_let :
  (Program.parse ("let = 1" ++ "\n;\n" ++ "x") "a").1.statements
      = (Program.parse "let = 1" "a").1.statements
        ++ (Program.parse "x" "a").1.statements.map (Stmt.map (Position.down 2) id)
    ∧ (Program.parse ("let = 1" ++ "\n;\n" ++ "x") "a").2 ≠ []
  := by
  have hbraces : ∀ s ∈ (tokens "let = 1").tails,
      (s.countP fun t => t.kind = .leftBrace) ≤ (s.countP fun t => t.kind = .rightBrace) := by
    decide +kernel
  have herror : (Program.parse "let = 1" "a").2.length = 1 := by decide +kernel
  obtain ⟨hfound, herrors⟩ := Program.parse_recovers "let = 1" "x" "a" "a" "a"
    (by decide +kernel) (fun s hs => hbraces s ((List.mem_tails s _).mpr hs)) (by rfl)
    (.inl (by decide +kernel))
  constructor
  · exact hfound
  · rw [ne_eq, herrors]
    intro hnil
    rw [hnil] at herror
    cases herror

end Scriptlet
