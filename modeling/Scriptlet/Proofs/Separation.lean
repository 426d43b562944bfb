import Mathlib.Data.List.Infix
import Scriptlet.Proofs.Parsing.Growth
import Scriptlet.Proofs.Recovery

/-!
# Semicolons between statements

A semicolon ends a statement, unless a decorated declaration at the end of the statement has read
it.  Then an opening parenthesis or bracket or a minus behind it goes on with the statement.
-/

namespace Scriptlet

namespace Parse

variable {finish : Position} {fuel fuel' k k' n : Nat} {l v : List Token}

/-! ### What is parsed without errors -/

/-- What is parsed without errors has as many closing as opening braces, and no illegal tokens. -/
theorem spans_statements (hk : l.length ≤ k) (h : (statements finish fuel k l).2 = []) :
  excess l = 0 ∧ illegals l = 0 ∧ ∀ q, q <:+ l → 0 ≤ excess q
  := by
  induction k generalizing l with
  | zero =>
      obtain rfl : l = [] := by simpa using hk
      refine ⟨rfl, rfl, ?_⟩
      intro q hq
      simp [List.suffix_nil.mp hq]
  | succ k ih =>
      cases l with
      | nil =>
          refine ⟨rfl, rfl, ?_⟩
          intro q hq
          simp [List.suffix_nil.mp hq]
      | cons t ts =>
          rw [List.length_cons, Nat.add_le_add_iff_right] at hk
          by_cases ht : t.kind = .semicolon
          · rw [statements_semicolon ht] at h
            obtain ⟨hexcess, hillegal, hnested⟩ := ih hk h
            refine ⟨by simp [ht, braces, hexcess], by simp [ht, hillegal], ?_⟩
            intro q hq
            rcases List.suffix_cons_iff.mp hq with rfl | hq
            · simp [ht, braces, hexcess]
            · exact hnested q hq
          · cases hrun : statement finish fuel (t :: ts) with
            | error e rest =>
                rw [statements_error ht hrun] at h
                cases h
            | ok s rest =>
                rw [statements_ok ht hrun] at h
                have hspans : Spans finish 1 0 false (t :: ts) rest :=
                  Rule.spans_of_ok (r := .statement) trivial hrun
                have hlen := hspans.least
                rw [List.length_cons, Nat.add_le_add_iff_right] at hlen
                obtain ⟨hexcess, hillegal, hnested⟩ := ih (Nat.le_trans hlen hk) h
                refine ⟨by rw [hspans.excess_eq, hexcess]; rfl,
                  by rw [hspans.illegals_eq, hillegal], ?_⟩
                intro q hq
                rcases List.suffix_or_suffix_of_suffix hq hspans.suffix with hqr | hrq
                · exact hnested q hqr
                · -- A part that starts inside the statement has at least the closing braces behind
                  -- the statement.
                  have := hspans.nested q hq hrq
                  rw [hexcess] at this
                  exact this

/-- Where there are no errors, every string is closed. -/
theorem terminated_of_statements (hk : l.length ≤ k) (h : (statements finish fuel k l).2 = [])
    (t : Token) (ht : t ∈ l) :
  ¬ Source.Unterminated t
  := by
  rintro ⟨hkind, -⟩
  have hcount := (spans_statements hk h).2.1
  rw [illegals, List.countP_eq_zero] at hcount
  exact hcount t ht (by simp [hkind])

/-- A token that can only go on with an expression is none of its own. -/
theorem primary_continuing (hk : continues (kindOf l) = true) (hc : clings (kindOf l) = false)
    (n : Nat) :
  Ensures (Parse.primary finish n) l (fun _ _ => False) (fun _ => True)
  := by
  cases n with
  | zero => simp [Parse.primary]
  | succ n =>
      simp only [Parse.primary, ensures_bind, ensures_here, ensures_kind]
      generalize kindOf l = kind at hk hc
      cases kind
      all_goals first
        | exact absurd hk (by decide)
        | exact absurd hc (by decide)
        | simp

/-- A token that can only go on with an expression starts none, with or without operators. -/
theorem unary_continuing (hk : continues (kindOf l) = true) (hc : clings (kindOf l) = false)
    (n : Nat) :
  Ensures (Parse.unary finish n) l (fun _ _ => False) (fun _ => True)
  := by
  have hnone : UnaryOp.ofToken? (kindOf l) = none := by
    generalize kindOf l = kind at hk hc
    cases kind
    all_goals first
      | rfl
      | exact absurd hk (by decide)
      | exact absurd hc (by decide)
  rcases n with _ | _ | n
  · simp [Parse.unary]
  · simp [Parse.unary, Parse.suffixed, hnone]
  · simp only [Parse.unary, Parse.suffixed, ensures_bind, ensures_here, ensures_kind, hnone]
    exact (primary_continuing hk hc n).mono (by simp) (by simp)

/-- A token that can only go on with an expression starts no statement. -/
theorem exprStatement_continuing (hk : continues (kindOf l) = true)
    (hc : clings (kindOf l) = false) (n : Nat) :
  Ensures (Parse.exprStatement finish n) l (fun _ _ => False) (fun _ => True)
  := by
  rcases n with _ | _ | n
  · simp [Parse.exprStatement]
  · simp [Parse.exprStatement, Parse.binary]
  · simp only [Parse.exprStatement, Parse.binary, ensures_bind, ensures_here]
    exact (unary_continuing hk hc n).mono (by simp) (by simp)

/-- What can go on with an operand and not start one starts no statement. -/
theorem statement_continuing (hk : continues (kindOf l) = true)
    (hc : clings (kindOf l) = false) :
  Ensures (Parse.statement finish n) l (fun _ _ => False) (fun _ => True)
  := by
  cases n with
  | zero => simp [Parse.statement]
  | succ n =>
      have hexpr : Ensures (Parse.exprStatement finish n) l (fun _ _ => False) (fun _ => True) :=
        exprStatement_continuing hk hc n
      simp only [Parse.statement, ensures_bind, ensures_kind]
      generalize kindOf l = kind at hk hc
      cases kind
      all_goals first
        | exact absurd hk (by decide)
        | exact absurd hc (by decide)
        | exact hexpr

/-- What goes on with what is complete and starts something without errors clings. -/
theorem clings_of_statements (hv : kindOf v ≠ .semicolon)
    (h : (statements finish fuel (v.length + k) v).2 = []) (hk : continues (kindOf v) = true) :
  clings (kindOf v) = true
  := by
  by_contra hc
  rw [Bool.not_eq_true] at hc
  cases v with
  | nil => cases hk
  | cons t ts =>
      have hfails : Ensures (Parse.statement finish fuel) (t :: ts) (fun _ _ => False)
          (fun _ => True) := statement_continuing hk hc
      obtain ⟨e, rest, hrun, -⟩ := hfails.error
      have hlen : (t :: ts).length + k = (ts.length + k) + 1 := by
        simp
        omega
      rw [hlen, statements_error hv hrun] at h
      cases h

/-! ### Where a semicolon is read too early -/

/-- What is over at its semicolon has read no more than it. -/
theorem not_open_of_drop (hl : dropSemicolon l = []) :
  ¬ Open finish l
  := by
  rintro ⟨d, hd, hk, -⟩
  have hnil : ¬ d <:+ [] := by
    intro hd
    rw [List.suffix_nil.mp hd] at hk
    cases hk
  unfold dropSemicolon at hl
  cases l with
  | nil => exact hnil hd
  | cons t l =>
      split at hl
      next hsemi =>
        rcases List.suffix_cons_iff.mp hd with rfl | hd
        · rw [hsemi] at hk
          cases hk
        · rw [show l = [] from hl] at hd
          exact hnil hd
      next => cases hl

/-- A decorated declaration that reads to the end has read the semicolon. -/
theorem open_of_decorated (hl : kindOf l = .decorator)
    (h : (decorated finish n l matches .ok _ []) = true) :
  Open finish l
  := by
  refine ⟨l, List.suffix_rfl, hl, n, ?_⟩
  split at h
  next e hrun => exact ⟨e, hrun⟩
  next => cases h

/-- What is open behind another token than an `@` is open. -/
theorem Open.tail (h : Open finish l) (hl : kindOf l ≠ .decorator) :
  Open finish l.tail
  := by
  obtain ⟨d, hd, hk, hrun⟩ := h
  cases l with
  | nil => exact ⟨d, hd, hk, hrun⟩
  | cons t l =>
      rcases List.suffix_cons_iff.mp hd with rfl | hd
      · exact absurd hk hl
      · exact ⟨d, hd, hk, hrun⟩

/-- What is behind the tokens of a rule is open if they are, or there is nothing behind them. -/
theorem Open.behind {k : Nat} {e : Int} {c : Bool} {rest : List Token} (h : Open finish l)
    (hspans : Spans finish k e c l rest) :
  Open finish rest ∨ rest = []
  := by
  obtain ⟨d, hd, hk, n, a, hdec⟩ := h
  rcases hspans.decorators d hd hk with hrest | ⟨n', a', m, hdec', hm⟩
  · exact .inl ⟨d, hrest, hk, n, a, hdec⟩
  · obtain ⟨-, rfl⟩ := Rule.ok_unique (r := .decorated) hdec hdec'
    exact .inr (List.suffix_nil.mp hm)

/-- A rule that leaves at most a semicolon behind an open declaration leaves nothing. -/
theorem Open.taken {r : Rule} {c : r.Result} (h : Open finish l) (hs : r.Starts l)
    (hrun : r.run finish n l = .ok c v) (hv : dropSemicolon v = []) :
  v = []
  := (h.behind (Rule.spans_of_ok hs hrun)).resolve_left (not_open_of_drop hv)

namespace Rule

variable {a b : Stmt} {m : List Token}

/-- A statement that ends in an expression grows with it. -/
theorem value_grows (hv : clings (kindOf v) = true) {f : Expr → Stmt}
    (hf : ∀ e, (f e).operations = e.operations) (hw : Whole l) (ho : Open finish l)
    (h : (do
      let e ← Parse.binary finish n assignLevel
      skipSemicolon
      return f e) l = .ok a [])
    (h' : (do
      let e ← Parse.binary finish n assignLevel
      skipSemicolon
      return f e) (l ++ v) = .ok b m) :
  a.operations < b.operations
  := by
  obtain ⟨e, l₁, he, h⟩ := bind_eq_ok.mp h
  obtain ⟨e', l₁', he', h'⟩ := bind_eq_ok.mp h'
  rw [skipSemicolon_bind, pure_eq_ok] at h h'
  obtain ⟨rfl, hdrop⟩ := h
  obtain ⟨rfl, -⟩ := h'
  rw [hf, hf]
  obtain rfl := ho.taken (r := binary assignLevel) trivial he hdrop
  rcases grows hv finish n (r := binary assignLevel) rfl l e e' l₁' hw trivial he he' with
    hlt | ⟨-, -, -, hlt⟩
  · exact hlt
  · simp [assignLevel] at hlt

/-- A `let` whose value is open takes in what goes on with it. -/
theorem letStatement_grows (hv : clings (kindOf v) = true) (hw : Whole l) (ho : Open finish l)
    (hk : kindOf l = .letWord) (h : Parse.letStatement finish n l = .ok a [])
    (h' : Parse.letStatement finish n (l ++ v) = .ok b m) :
  a.operations < b.operations
  := by
  cases n with
  | zero =>
      exact absurd h (Ensures.not_ok (E := fun _ => True) (by simp [Parse.letStatement]) _ _)
  | succ n =>
      rw [Parse.letStatement, here_bind, advance_bind, identifier_bind_eq_ok, expect_bind_eq_ok]
        at h h'
      obtain ⟨hname, hassign, h⟩ := h
      obtain ⟨-, -, h'⟩ := h'
      have hw₁ := hw.tail (by simp [hk])
      have hw₂ := hw₁.tail (by simp [hname])
      have hw₃ := hw₂.tail (by simp [hassign])
      have ho₃ := ((ho.tail (by simp [hk])).tail (by simp [hname])).tail (by simp [hassign])
      rw [hw.tail_append, hw₁.tail_append, hw₂.tail_append, hw₁.wordOf_append, hw.hereOf_append]
        at h'
      refine value_grows hv ?_ hw₃ ho₃ h h'
      intro e
      simp [Stmt.operations]

/-- A `return` whose value is open takes in what goes on with it. -/
theorem returnStatement_grows (hv : clings (kindOf v) = true) (hw : Whole l)
    (ho : Open finish l) (hk : kindOf l = .returnWord)
    (h : Parse.returnStatement finish n l = .ok a [])
    (h' : Parse.returnStatement finish n (l ++ v) = .ok b m) :
  a.operations < b.operations
  := by
  have hw₁ := hw.tail (by simp [hk])
  have ho₁ := ho.tail (by simp [hk])
  cases n with
  | zero =>
      exact absurd h (Ensures.not_ok (E := fun _ => True) (by simp [Parse.returnStatement]) _ _)
  | succ n =>
      have bare (h : (do
          skipSemicolon
          return Stmt.ret (hereOf finish l) none) l.tail = .ok a []) :
        a.operations < b.operations
        := by
        rw [skipSemicolon_bind, pure_eq_ok] at h
        exact absurd ho₁ (not_open_of_drop h.2)
      rw [Parse.returnStatement, here_bind, advance_bind, kind_bind] at h h'
      rw [hw.tail_append, hw₁.kindOf_append, hw.hereOf_append] at h'
      generalize kindOf l.tail = k at h h'
      split at h
      next => exact bare h
      next => exact bare h
      next => exact bare h
      next =>
        simp only at h'
        exact value_grows hv (f := fun e => .ret _ (some e)) (fun _ => rfl) hw₁ ho₁ h h'

/-- A `use` is never open. -/
theorem useStatement_closed (hk : kindOf l = .useWord)
    (h : Parse.useStatement finish l = .ok a []) :
  ¬ Open finish l
  := by
  intro ho
  have ho₁ := ho.tail (by simp [hk])
  have named {k : TokenKind} (hk : kindOf l.tail = k) (hdec : k ≠ .decorator)
      (h : (do
        let unit ← word
        advance
        skipSemicolon
        return Stmt.use (hereOf finish l) unit) l.tail = .ok a []) :
    False
    := by
    rw [word_bind, advance_bind, skipSemicolon_bind, pure_eq_ok] at h
    exact not_open_of_drop h.2 (ho₁.tail (by rwa [hk]))
  rw [Parse.useStatement, here_bind, advance_bind, kind_bind] at h
  generalize hk' : kindOf l.tail = k at h
  split at h
  next => exact named hk' (by rintro ⟨⟩) h
  next => exact named hk' (by rintro ⟨⟩) h
  next => exact absurd h (Ensures.not_ok (E := fun _ => True) (by simp) _ _)

/-- The declaration of a function is never open. -/
theorem funcStatement_closed (hk : kindOf l = .funcWord) (hw : Whole l)
    (h : Parse.funcStatement finish n l = .ok a []) :
  ¬ Open finish l
  := by
  intro ho
  have hw₁ := hw.tail (by simp [hk])
  have ho₁ := ho.tail (by simp [hk])
  cases n with
  | zero =>
      exact absurd h (Ensures.not_ok (E := fun _ => True) (by simp [Parse.funcStatement]) _ _)
  | succ n =>
      rw [Parse.funcStatement, here_bind, advance_bind, word_bind] at h
      obtain ⟨e, l₁, he, h⟩ := bind_eq_ok.mp h
      rw [skipSemicolon_bind, pure_eq_ok] at h
      have hnil := ho₁.taken (r := function _) trivial he h.2
      exact function_ne_nil he hw₁.terminated hnil

/-- A statement that takes in the semicolon at the end with an open declaration grows. -/
theorem statement_grows (hv : clings (kindOf v) = true) (hw : Whole l) (ho : Open finish l)
    (h : Parse.statement finish n l = .ok a [])
    (h' : Parse.statement finish n (l ++ v) = .ok b m) :
  a.operations < b.operations
  := by
  have htail {k : TokenKind} (hk : kindOf l = k) (hsemi : k ≠ .semicolon) : Whole l.tail :=
    hw.tail (by rwa [hk])
  cases n with
  | zero => exact absurd h (Ensures.not_ok (E := fun _ => True) (by simp [Parse.statement]) _ _)
  | succ n =>
      have hexpr (h : Parse.exprStatement finish n l = .ok a [])
          (h' : Parse.exprStatement finish n (l ++ v) = .ok b m) :
        a.operations < b.operations
        := by
        cases n with
        | zero =>
            exact absurd h
              (Ensures.not_ok (E := fun _ => True) (by simp [Parse.exprStatement]) _ _)
        | succ n =>
            rw [Parse.exprStatement, here_bind] at h h'
            rw [hw.hereOf_append] at h'
            exact value_grows hv (fun _ => rfl) hw ho h h'
      rw [Parse.statement, kind_bind] at h h'
      rw [hw.kindOf_append] at h'
      generalize hk : kindOf l = k at h h'
      split at h
      next =>
        dsimp only at h'
        exact letStatement_grows hv hw ho hk h h'
      next =>
        dsimp only at h'
        exact returnStatement_grows hv hw ho hk h h'
      next => exact absurd ho (useStatement_closed hk h)
      next =>
        rw [here_bind] at h
        obtain ⟨body, hbody, -⟩ := bind_pure_eq_ok.mp h
        exact absurd rfl (block_ne_nil hbody hw.terminated)
      next =>
        dsimp only at h'
        have hw₁ := htail hk (by rintro ⟨⟩)
        rw [secondKind_bind] at h h'
        rw [hw.tail_append, hw₁.kindOf_append] at h'
        by_cases hname : kindOf l.tail = .identifier
        · simp only [hname, ↓reduceIte] at h
          exact absurd ho (funcStatement_closed hk hw h)
        · simp only [hname, ↓reduceIte] at h h'
          exact hexpr h h'
      next h₁ h₂ h₃ h₄ h₅ =>
        simp only at h'
        exact hexpr h h'

end Rule

/-- Where an open declaration takes in the semicolon at the end, one of the statements grows. -/
theorem statements_grow (hv : clings (kindOf v) = true) (hw : Rule.Whole l) (ho : Open finish l)
    (hk : l.length ≤ k) (hk' : (l ++ v).length ≤ k')
    (h : (statements finish fuel k l).2 = [])
    (h' : (statements finish fuel' k' (l ++ v)).2 = []) (w : List Nat) :
  (statements finish fuel' k' (l ++ v)).1.map Stmt.operations
    ≠ (statements finish fuel k l).1.map Stmt.operations ++ w
  := by
  induction k generalizing l k' with
  | zero => exact absurd (by simpa using hk) hw.ne_nil
  | succ k ih =>
      cases l with
      | nil => exact absurd rfl hw.ne_nil
      | cons t ts =>
          obtain ⟨k', rfl⟩ : ∃ j, k' = j + 1 := ⟨k' - 1, by simp at hk'; omega⟩
          simp only [List.cons_append, List.length_cons, Nat.add_le_add_iff_right] at hk hk'
          rw [List.cons_append] at h' ⊢
          by_cases ht : t.kind = .semicolon
          · rw [statements_semicolon ht] at h h' ⊢
            rw [statements_semicolon ht]
            have hots : Open finish ts := ho.tail (by simp [ht])
            have hnil : ts ≠ [] := by
              rintro rfl
              exact not_open_of_drop rfl hots
            exact ih (hw.suffix (List.suffix_cons t ts) hnil) hots hk hk' h h'
          · cases hrun : statement finish fuel (t :: ts) with
            | error e rest =>
                rw [statements_error ht hrun] at h
                cases h
            | ok a rest =>
                cases hrun' : statement finish fuel' (t :: (ts ++ v)) with
                | error e rest' =>
                    rw [statements_error ht hrun'] at h'
                    cases h'
                | ok b rest' =>
                    rw [statements_ok ht hrun] at h ⊢
                    rw [statements_ok ht hrun'] at h' ⊢
                    have hmax := Rule.extends_of_le (Nat.le_max_left fuel fuel') .statement _ _ _
                      hrun
                    have hmax' := Rule.extends_of_le (Nat.le_max_right fuel fuel') .statement
                      (t :: ts ++ v) _ _ hrun'
                    have hspans : Spans finish 1 0 false (t :: ts) rest :=
                      Rule.spans_of_ok (r := .statement) trivial hrun
                    have hlen := hspans.least
                    rw [List.length_cons, Nat.add_le_add_iff_right] at hlen
                    intro heq
                    rw [List.map_cons, List.map_cons, List.cons_append, List.cons.injEq] at heq
                    -- The statement that takes in the semicolon grows, and those in front of it
                    -- are the same.
                    by_cases hrest : rest = []
                    · subst hrest
                      have := Rule.statement_grows hv hw ho hmax hmax'
                      omega
                    · have hclosed : (0 : Int) ≤ excess (t :: ts) :=
                        hw.closed _ List.suffix_rfl
                      obtain ⟨rfl, rfl⟩ := Rule.ok_append (r := .statement)
                        (ne_semicolon_of_clings hv) hw trivial hclosed hmax hmax' hrest
                      have horest : Open finish rest := (ho.behind hspans).resolve_right hrest
                      refine ih (hw.suffix hspans.suffix hrest) horest (Nat.le_trans hlen hk) ?_
                        h h' heq.2
                      simp only [List.length_append] at hk' ⊢
                      omega

/-- The semicolons at the start. -/
def semicolons (l : List Token) : List Token :=
  l.takeWhile fun t => t.kind = .semicolon

/-- What is left without them. -/
def dropSemicolons (l : List Token) : List Token :=
  l.dropWhile fun t => t.kind = .semicolon

/-- Whether the tokens `l`, which end in a semicolon, and `m` are glued together: a decorated
declaration takes in the last semicolon of `l` and those at the start of `m`, and behind them
there is an opening parenthesis or bracket or a minus. -/
def Glued (finish : Position) (l m : List Token) : Prop :=
  clings (kindOf (dropSemicolons m)) = true ∧ Open finish (l ++ semicolons m)

/-- The semicolons at the start and what is behind them make up all tokens. -/
theorem semicolons_append_dropSemicolons (l : List Token) :
  semicolons l ++ dropSemicolons l = l
  := List.takeWhile_append_dropWhile

/-- The semicolons at the start are semicolons. -/
theorem kind_of_mem_semicolons {t : Token} (h : t ∈ semicolons l) :
  t.kind = .semicolon
  := by
  induction l with
  | nil => cases h
  | cons u l ih =>
      by_cases hu : u.kind = .semicolon
      · rw [semicolons, List.takeWhile_cons_of_pos (by simpa using hu), List.mem_cons] at h
        rcases h with rfl | h
        · exact hu
        · exact ih h
      · rw [semicolons, List.takeWhile_cons_of_neg (by simpa using hu)] at h
        cases h

/-- Behind the semicolons at the start there is none. -/
theorem kindOf_dropSemicolons (l : List Token) :
  kindOf (dropSemicolons l) ≠ .semicolon
  := by
  induction l with
  | nil => rintro ⟨⟩
  | cons u l ih =>
      by_cases hu : u.kind = .semicolon
      · rw [dropSemicolons, List.dropWhile_cons_of_pos (by simpa using hu)]
        exact ih
      · rw [dropSemicolons, List.dropWhile_cons_of_neg (by simpa using hu)]
        exact hu

/-- Tokens that hold statements without errors, with semicolons at the end. -/
theorem whole_semicolons {sep : Token} (hsep : sep.kind = .semicolon)
    (h : (parseTokens finish (l ++ [sep] ++ semicolons v)).2 = []) :
  Rule.Whole (l ++ [sep] ++ semicolons v)
  where
  terminated := by
    by_cases hnil : semicolons v = []
    · rw [hnil, List.append_nil, terminated_append (by simp), terminated_singleton, hsep]
    · rw [terminated_append hnil]
      exact ⟨_, List.getLast?_eq_some_getLast hnil, kind_of_mem_semicolons (List.getLast_mem hnil)⟩
  closed := (spans_statements (Nat.le_refl _) h).2.2

/-- What is not glued together can be told apart. -/
theorem separates_of_not_glued {m : List Token} (hw : Rule.Whole (l ++ semicolons m))
    (hm : (parseTokens finish (dropSemicolons m)).2 = []) (h : ¬ Glued finish l m) :
  (Change.followedBy (dropSemicolons m) finish finish).Separates (l ++ semicolons m)
  where
  fit := .inr (.inr hw.terminated)
  closed := .inr hw.closed
  quiet := by
    by_cases hclings : clings (kindOf (dropSemicolons m)) = true
    · right
      intro hopen
      exact h ⟨hclings, hopen⟩
    · left
      intro m' hm'
      rw [Rule.ends_followedBy (kindOf_dropSemicolons m) hm', ← Bool.not_eq_true]
      exact mt (clings_of_statements (k := 0) (kindOf_dropSemicolons m) hm) hclings

end Parse

open Parse Source

/-- The statements of two texts with a semicolon on a line of its own between them are those of
both, unless that semicolon is read by a decorated declaration that then goes on. -/
theorem Program.parse_append (text other file file' file'' : String)
    (htext : (Program.parse text file').2 = []) (hother : (Program.parse other file'').2 = []) :
  ((Program.parse (text ++ "\n;\n" ++ other) file).2 = []
      ∧ (Program.parse (text ++ "\n;\n" ++ other) file).1.statements.map Stmt.bare
        = (Program.parse text file').1.statements.map Stmt.bare
          ++ (Program.parse other file'').1.statements.map Stmt.bare)
    ↔ ¬ Glued (finish (text ++ "\n;\n" ++ other)) (tokens text ++ [separator text])
      (below text other)
  := by
  simp only [Program.parse_eq] at htext hother ⊢
  rw [tokens_join text other (terminated_of_statements (Nat.le_refl _) htext)]
  generalize finish (text ++ "\n;\n" ++ other) = last
  have hsemi : ∀ t ∈ [separator text] ++ semicolons (below text other), t.kind = .semicolon := by
    intro t ht
    rcases List.mem_append.mp ht with ht | ht
    · rw [List.mem_singleton.mp ht]
      rfl
    · exact kind_of_mem_semicolons ht
  obtain ⟨hfirst, hfirst'⟩ := parseTokens_semicolons (finish text) last (tokens text) hsemi
  obtain ⟨hsecond, hsecond'⟩ :=
    parseTokens_move (finish other) last (tokens other)
      (.inl (Position.down_injective (lineFeeds (text ++ "\n;\n"))))
  obtain ⟨hthird, hthird'⟩ := parseTokens_leading last (dropSemicolons (below text other))
    fun t ht => kind_of_mem_semicolons (l := below text other) ht
  rw [semicolons_append_dropSemicolons] at hthird hthird'
  rw [← List.append_assoc] at hfirst hfirst'
  have hjoin : tokens text ++ [separator text] ++ below text other
      = tokens text ++ [separator text] ++ semicolons (below text other)
        ++ dropSemicolons (below text other) := by
    rw [List.append_assoc _ (semicolons _), semicolons_append_dropSemicolons]
  have hnone := hfirst'.mpr htext
  have hnone' := hthird'.mp (hsecond'.mpr hother)
  have hw := whole_semicolons rfl hnone
  have hbare : (parseTokens last (below text other)).1.map Stmt.bare
      = (parseTokens (finish other) (tokens other)).1.map Stmt.bare := by
    rw [below, hsecond]
    simp
  rw [hjoin, ← hfirst, ← hbare, hthird]
  constructor
  · -- Where the texts stick together, a statement grows, so they do not make what they make alone.
    rintro ⟨herrors, hfound⟩ ⟨hclings, hopen⟩
    have hfound := congrArg (List.map Stmt.operations) hfound
    simp only [List.map_append, List.map_map, Function.comp_def, Stmt.bare,
      Stmt.operations_map] at hfound
    exact statements_grow hclings hw hopen (Nat.le_refl _) (Nat.le_refl _) hnone herrors _ hfound
  · intro hglued
    obtain ⟨hfound, herrors⟩ := parseTokens_append last last _ _
      (separates_of_not_glued hw hnone' hglued) (.inr hnone)
    constructor
    · exact herrors.mpr ⟨hnone, hnone'⟩
    · rw [hfound, List.map_append]

/-- A decorated declaration whose semicolon is read, and an expression in parentheses behind it,
which become the arguments of a call. -/
theorem Program.parse_append_call :
  (Program.parse "@d let x = 1" "a").2 = []
    ∧ (Program.parse "(2)" "a").2 = []
    ∧ ¬ ((Program.parse ("@d let x = 1" ++ "\n;\n" ++ "(2)") "a").2 = []
      ∧ (Program.parse ("@d let x = 1" ++ "\n;\n" ++ "(2)") "a").1.statements.map Stmt.bare
        = (Program.parse "@d let x = 1" "a").1.statements.map Stmt.bare
          ++ (Program.parse "(2)" "a").1.statements.map Stmt.bare)
  := by
  have htext : (Program.parse "@d let x = 1" "a").2 = [] :=
    List.eq_nil_of_length_eq_zero (by decide +kernel)
  have hother : (Program.parse "(2)" "a").2 = [] :=
    List.eq_nil_of_length_eq_zero (by decide +kernel)
  refine ⟨htext, hother, ?_⟩
  rw [Program.parse_append "@d let x = 1" "(2)" "a" "a" "a" htext hother, not_not]
  constructor
  · decide +kernel
  · exact open_of_decorated (n := 20) (by decide +kernel) (by decide +kernel)

/-- Two texts without errors whose statements are not those of both together. -/
theorem Program.exists_not_parse_append :
  ∃ text other file, (Program.parse text file).2 = [] ∧ (Program.parse other file).2 = []
    ∧ ¬ ((Program.parse (text ++ "\n;\n" ++ other) file).2 = []
      ∧ (Program.parse (text ++ "\n;\n" ++ other) file).1.statements.map Stmt.bare
        = (Program.parse text file).1.statements.map Stmt.bare
          ++ (Program.parse other file).1.statements.map Stmt.bare)
  := by
  use "@d let x = 1", "(2)", "a"
  refine ⟨List.eq_nil_of_length_eq_zero (by decide +kernel),
    List.eq_nil_of_length_eq_zero (by decide +kernel), ?_⟩
  rintro ⟨-, hfound⟩
  have hfound := congrArg List.length hfound
  simp only [List.length_append, List.length_map] at hfound
  -- The second text has become the arguments of a call.
  have hjoined :
    (Program.parse ("@d let x = 1" ++ "\n;\n" ++ "(2)") "a").1.statements.length = 1
    := by decide +kernel
  have hapart : (Program.parse "@d let x = 1" "a").1.statements.length
      + (Program.parse "(2)" "a").1.statements.length = 2 := by
    decide +kernel
  omega

end Scriptlet
