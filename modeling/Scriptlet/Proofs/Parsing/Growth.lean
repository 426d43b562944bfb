import Scriptlet.Proofs.Parsing.Glue

/-!
# What reading the last semicolon leads to

Of two runs over the same tokens, the second with `v` behind them, where `v` starts with an
opening parenthesis or bracket or a minus.  If the first run takes in the semicolon at the end,
then the second one makes something with more operations, unless it stops in front of `v` as well.
-/

namespace Scriptlet

namespace Parse

/-- Whether a token of a kind can go on with an operand and can start one. -/
def clings (kind : TokenKind) : Bool :=
  [.leftParen, .leftBracket, .minus].contains kind

/-- What can go on with an operand and start one is an opening parenthesis or bracket or a minus. -/
theorem clings_cases {kind : TokenKind} (h : clings kind = true) :
  kind = .leftParen ∨ kind = .leftBracket ∨ kind = .minus
  := by
  simpa [clings] using h

/-- A semicolon starts no operand. -/
theorem ne_semicolon_of_clings {kind : TokenKind} (h : clings kind = true) :
  kind ≠ .semicolon
  := by
  rintro rfl
  cases h

section

variable {α β : Type} {l m rest rest' : List Token}

/-- A run that makes something at once leaves all tokens. -/
theorem pure_eq_ok {a b : α} :
  (pure a : Parse α) l = .ok b rest ↔ a = b ∧ l = rest
  := by
  constructor
  · rintro ⟨⟩
    exact ⟨rfl, rfl⟩
  · rintro ⟨rfl, rfl⟩
    rfl

/-- What a rule makes of the result of another one. -/
theorem bind_pure_eq_ok {p : Parse β} {f : β → α} {a : α} :
  (p >>= fun b => pure (f b)) l = .ok a rest ↔ ∃ b, p l = .ok b rest ∧ f b = a
  := by
  simp only [bind_eq_ok, pure_eq_ok]
  constructor
  · rintro ⟨b, m, hp, heq, rfl⟩
    exact ⟨b, hp, heq⟩
  · rintro ⟨b, hp, heq⟩
    exact ⟨b, rest, hp, heq, rfl⟩

end

namespace Rule

variable {finish : Position} {n : Nat} {v s m : List Token}

/-- Whether a rule can take in the semicolon at the end of its tokens. -/
def trails : Rule → Bool
  | letStatement | funcStatement | declaration | decorated | primary | suffixed | unary
  | binary _ | binaryRest _ _ | assignment _ _ => true
  | _ => false

/-- The number of operations of what such a rule makes. -/
def weight : (r : Rule) → r.Result → Nat
  | letStatement, a => Stmt.operations a
  | funcStatement, a => Stmt.operations a
  | declaration, a => Stmt.operations a
  | decorated, a => Expr.operations a
  | primary, a => Expr.operations a
  | suffixed, a => Expr.operations a
  | unary, a => Expr.operations a
  | binary _, a => Expr.operations a
  | binaryRest _ _, a => Expr.operations a
  | assignment _ _, a => Expr.operations a
  | _, _ => 0

/-- Whether a rule leaves the tokens `v` behind what is complete without them. -/
def Tight (v : List Token) : Rule → Prop
  | suffixed | unary => kindOf v = .minus
  | binary level | binaryRest level _ | assignment level _ => kindOf v = .minus ∧ 4 < level
  | _ => True

/-- If the run of a rule over `s` leaves nothing, then its run over `s` and `v` makes something with
more operations, or stops in front of `v`. -/
def Grows (finish : Position) (v : List Token) (n : Nat) (r : Rule) : Prop :=
  ∀ s a b m, Whole s → r.Starts s → r.run finish n s = .ok a [] →
    r.run finish n (s ++ v) = .ok b m →
    r.weight a < r.weight b ∨ (r.weight a ≤ r.weight b ∧ m = v ∧ r.Tight v)

/-- Tokens that end in a semicolon are not none. -/
theorem Whole.ne_nil (h : Whole s) :
  s ≠ []
  := by
  rintro rfl
  exact not_terminated_nil h.terminated

/-- Behind a token that is not the semicolon, the tokens are as before. -/
theorem Whole.tail (h : Whole s) (hs : kindOf s ≠ .semicolon) :
  Whole s.tail
  := h.suffix (List.tail_suffix s) (tail_ne_nil h.terminated hs)

/-- The kind of the first token is the same with `v` behind. -/
theorem Whole.kindOf_append (h : Whole s) :
  kindOf (s ++ v) = kindOf s
  := by
  cases s with
  | nil => exact absurd rfl h.ne_nil
  | cons t s => rfl

/-- The first token stands in the same place with `v` behind. -/
theorem Whole.hereOf_append (h : Whole s) :
  hereOf finish (s ++ v) = hereOf finish s
  := by
  cases s with
  | nil => exact absurd rfl h.ne_nil
  | cons t s => rfl

/-- The text of the first token is the same with `v` behind. -/
theorem Whole.wordOf_append (h : Whole s) :
  wordOf (s ++ v) = wordOf s
  := by
  cases s with
  | nil => exact absurd rfl h.ne_nil
  | cons t s => rfl

/-- The tokens behind the first are the same with `v` behind. -/
theorem Whole.tail_append (h : Whole s) :
  (s ++ v).tail = s.tail ++ v
  := List.tail_append_of_ne_nil h.ne_nil

/-- A semicolon at the end is read in front of `v` as well. -/
theorem Whole.dropSemicolon_append (h : Whole s) (hs : dropSemicolon s = []) :
  dropSemicolon (s ++ v) = v
  := by
  unfold dropSemicolon at hs ⊢
  rw [h.kindOf_append]
  split at hs
  next hk => rw [if_pos hk, h.tail_append, hs, List.nil_append]
  next => exact absurd hs h.ne_nil

/-- Both runs take the same first step, unless it takes in the semicolon at the end. -/
theorem bind_append {α : Type} {r : Rule} {f f' : r.Result → Parse α} {a b : α}
    (hv : kindOf v ≠ .semicolon) (hw : Whole s) (hs : r.Starts s) (hb : r.closes ≤ 0)
    (h : (r.run finish n >>= f) s = .ok a [])
    (h' : (r.run finish n >>= f') (s ++ v) = .ok b m) :
  (∃ c l, r.run finish n s = .ok c l ∧ Whole l ∧ f c l = .ok a [] ∧ f' c (l ++ v) = .ok b m)
    ∨ ∃ c c' l, r.run finish n s = .ok c [] ∧ r.run finish n (s ++ v) = .ok c' l
      ∧ f c [] = .ok a [] ∧ f' c' l = .ok b m
  := by
  obtain ⟨c, l, hc, h⟩ := bind_eq_ok.mp h
  obtain ⟨c', l', hc', h'⟩ := bind_eq_ok.mp h'
  by_cases hl : l = []
  · right
    subst hl
    exact ⟨c, c', l', hc, hc', h, h'⟩
  · left
    have hb : r.closes ≤ excess s := Int.le_trans hb (hw.closed s List.suffix_rfl)
    obtain ⟨rfl, rfl⟩ := ok_append hv hw hs hb hc hc' hl
    exact ⟨c', l, hc, hw.suffix (spans_of_ok hs hc).suffix hl, h, h'⟩

/-! ### The rules -/

/-- A declaration grows as the one of its kind does. -/
theorem grows_declaration (hlet : Grows finish v n letStatement)
    (hfunc : Grows finish v n funcStatement) (hdec : Grows finish v n decorated) :
  Grows finish v (n + 1) declaration
  := by
  intro s a b m hw _ h h'
  change Parse.declaration finish (n + 1) s = _ at h
  change Parse.declaration finish (n + 1) (s ++ v) = _ at h'
  rw [Parse.declaration, kind_bind] at h h'
  rw [hw.kindOf_append] at h'
  generalize hk : kindOf s = k at h h'
  split at h
  next => exact hlet s a b m hw hk h h'
  next =>
    dsimp only at h'
    have hw₁ := hw.tail (by simp [hk])
    rw [secondKind_bind] at h h'
    rw [hw.tail_append, hw₁.kindOf_append] at h'
    by_cases hname : kindOf s.tail = .identifier
    · simp only [hname, ↓reduceIte] at h h'
      exact hfunc s a b m hw ⟨hk, hname⟩ h h'
    · simp only [hname, ↓reduceIte] at h
      exact absurd h (Ensures.not_ok (E := fun _ => True) (by simp) _ _)
  next =>
    simp only [here_bind] at h h'
    rw [hw.hereOf_append] at h'
    obtain ⟨e, he, rfl⟩ := bind_pure_eq_ok.mp h
    obtain ⟨e', he', rfl⟩ := bind_pure_eq_ok.mp h'
    exact hdec s e e' m hw hk he he'
  next => exact absurd h (Ensures.not_ok (E := fun _ => True) (by simp) _ _)

section

variable (hv : clings (kindOf v) = true)

include hv

/-- A definition reads the semicolon itself, or its value has taken it in and goes on with `v`. -/
theorem grows_letStatement (ih : Grows finish v n (binary assignLevel)) :
  Grows finish v (n + 1) letStatement
  := by
  intro s a b m hw hs h h'
  change Parse.letStatement finish (n + 1) s = _ at h
  change Parse.letStatement finish (n + 1) (s ++ v) = _ at h'
  change kindOf s = _ at hs
  rw [Parse.letStatement, here_bind, advance_bind, identifier_bind_eq_ok, expect_bind_eq_ok]
    at h h'
  obtain ⟨hname, hassign, h⟩ := h
  obtain ⟨-, -, h'⟩ := h'
  have hw₁ := hw.tail (by simp [hs])
  have hw₂ := hw₁.tail (by simp [hname])
  have hw₃ := hw₂.tail (by simp [hassign])
  rw [hw.tail_append, hw₁.tail_append, hw₂.tail_append, hw₁.wordOf_append, hw.hereOf_append] at h'
  have hstep := bind_append (r := binary assignLevel) (ne_semicolon_of_clings hv) hw₃ trivial
    (Int.le_refl 0) h h'
  clear h h'
  obtain ⟨value, l, -, hl, h, h'⟩ | ⟨value, value', l, hvalue, hvalue', h, h'⟩ := hstep
  · -- The semicolon is read by the statement itself.
    right
    rw [skipSemicolon_bind, pure_eq_ok] at h h'
    obtain ⟨rfl, hnil⟩ := h
    obtain ⟨rfl, rfl⟩ := h'
    exact ⟨Nat.le_refl _, hl.dropSemicolon_append hnil, trivial⟩
  · rw [skipSemicolon_bind, pure_eq_ok] at h h'
    obtain ⟨rfl, -⟩ := h
    obtain ⟨rfl, -⟩ := h'
    have hlevel : ¬ 4 < assignLevel := by simp [assignLevel]
    rcases ih _ _ _ _ hw₃ trivial hvalue hvalue' with hlt | ⟨-, -, -, hlt⟩
    · left
      simpa [weight, Stmt.operations] using hlt
    · exact absurd hlt hlevel

/-- A function ends in its brace, so the semicolon is read by the definition of its name. -/
theorem grows_funcStatement :
  Grows finish v (n + 1) funcStatement
  := by
  intro s a b m hw hs h h'
  change Parse.funcStatement finish (n + 1) s = _ at h
  change Parse.funcStatement finish (n + 1) (s ++ v) = _ at h'
  change kindOf s = _ ∧ kindOf s.tail = _ at hs
  rw [Parse.funcStatement, here_bind, advance_bind, word_bind] at h h'
  have hw₁ := hw.tail (by simp [hs.1])
  rw [hw.tail_append, hw₁.wordOf_append, hw.hereOf_append] at h'
  have hstep := bind_append (r := function _) (ne_semicolon_of_clings hv) hw₁ trivial
    (Int.le_refl 0) h h'
  clear h h'
  obtain ⟨value, l, -, hl, h, h'⟩ | ⟨value, value', l, hvalue, -⟩ := hstep
  · right
    rw [skipSemicolon_bind, pure_eq_ok] at h h'
    obtain ⟨rfl, hnil⟩ := h
    obtain ⟨rfl, rfl⟩ := h'
    exact ⟨Nat.le_refl _, hl.dropSemicolon_append hnil, trivial⟩
  · exact absurd rfl (function_ne_nil hvalue hw₁.terminated)

/-- What goes on with `v` behind a decorator is the declaration. -/
theorem grows_decorated (ih : Grows finish v n declaration) :
  Grows finish v (n + 1) decorated
  := by
  -- What is decorated is read behind the name of the decorator or behind its arguments.
  have key {pos : Position} {decorator a b : Expr} {s m : List Token} (hw : Whole s)
      (h : (do return Expr.decorated pos decorator (← Parse.declaration finish n)) s = .ok a [])
      (h' : (do return Expr.decorated pos decorator (← Parse.declaration finish n)) (s ++ v)
        = .ok b m) :
    a.operations < b.operations ∨ (a.operations ≤ b.operations ∧ m = v ∧ True)
    := by
    obtain ⟨d, hd, rfl⟩ := bind_pure_eq_ok.mp h
    obtain ⟨d', hd', rfl⟩ := bind_pure_eq_ok.mp h'
    simpa [Expr.operations, weight, Tight] using ih s d d' m hw trivial hd hd'
  intro s a b m hw hs h h'
  change Parse.decorated finish (n + 1) s = _ at h
  change Parse.decorated finish (n + 1) (s ++ v) = _ at h'
  change kindOf s = _ at hs
  rw [Parse.decorated, here_bind, advance_bind, here_bind, identifier_bind_eq_ok, here_bind,
    kind_bind] at h h'
  obtain ⟨hname, h⟩ := h
  obtain ⟨-, h'⟩ := h'
  have hw₁ := hw.tail (by simp [hs])
  have hw₂ := hw₁.tail (by simp [hname])
  rw [hw.tail_append, hw₁.tail_append, hw.hereOf_append, hw₁.hereOf_append, hw₁.wordOf_append,
    hw₂.hereOf_append, hw₂.kindOf_append] at h'
  by_cases hparen : kindOf s.tail.tail = .leftParen
  · simp only [hparen, ↓reduceIte, advance_bind] at h h'
    have hw₃ := hw₂.tail (by simp [hparen])
    rw [hw₂.tail_append] at h'
    have hstep := bind_append (r := expressions .rightParen) (ne_semicolon_of_clings hv) hw₃
      (.inl rfl) (Int.le_refl 0) h h'
    clear h h'
    obtain ⟨args, l, -, hl, h, h'⟩ | ⟨args, args', l, -, -, h, -⟩ := hstep
    · rw [expect_bind_eq_ok] at h h'
      obtain ⟨hclose, h⟩ := h
      rw [hl.tail_append] at h'
      exact key (hl.tail (by simp [hclose])) h h'.2
    · rw [expect_bind_eq_ok] at h
      cases h.1
  · simp only [hparen, ↓reduceIte] at h h'
    exact key hw₂ h h'

end

/-- Of the operands, only a decorated declaration takes in the semicolon at the end. -/
theorem primary_eq_nil {e : Expr} (hw : Whole s)
    (h : Parse.primary finish (n + 1) s = .ok e []) :
  kindOf s = .decorator
  := by
  by_contra hdec
  have closing {l : List Token} {k : TokenKind} (hl : l <:+ s) (hk : kindOf l = k)
      (heof : k ≠ .eof) (hsemi : k ≠ .semicolon) :
    l.tail ≠ []
    := tail_ne_nil (terminated_of_kind hw.terminated hl (by rwa [hk])) (by rwa [hk])
  have htail := List.tail_suffix s
  -- All other operands end in a token in front of the semicolon.
  rw [Parse.primary, here_bind, kind_bind] at h
  generalize hk : kindOf s = k at h hdec
  have hw₁ (hsemi : k ≠ .semicolon) := hw.tail (hk ▸ hsemi)
  split at h
  case h_6 | h_1 | h_2 =>
    rw [word_bind, advance_bind, pure_eq_ok] at h
    exact (hw₁ (by rintro ⟨⟩)).ne_nil h.2
  case h_3 | h_4 | h_5 =>
    rw [advance_bind, pure_eq_ok] at h
    exact (hw₁ (by rintro ⟨⟩)).ne_nil h.2
  case h_7 =>
    rw [advance_bind] at h
    obtain ⟨a, l, ha, h⟩ := bind_eq_ok.mp h
    rw [expect_bind_eq_ok, pure_eq_ok] at h
    have hspans := spans_of_ok (r := binary assignLevel) trivial ha
    exact closing (hspans.suffix.trans htail) h.1 (by rintro ⟨⟩) (by rintro ⟨⟩) h.2.2
  case h_8 =>
    rw [advance_bind] at h
    obtain ⟨a, l, ha, h⟩ := bind_eq_ok.mp h
    rw [expect_bind_eq_ok, pure_eq_ok] at h
    have hspans := spans_of_ok (r := expressions .rightBracket) (.inr rfl) ha
    exact closing (hspans.suffix.trans htail) h.1 (by rintro ⟨⟩) (by rintro ⟨⟩) h.2.2
  case h_9 =>
    rw [advance_bind] at h
    obtain ⟨a, l, ha, h⟩ := bind_eq_ok.mp h
    rw [expect_bind_eq_ok, pure_eq_ok] at h
    have hspans := spans_of_ok (r := hashEntries) trivial ha
    exact closing (hspans.suffix.trans htail) h.1 (by rintro ⟨⟩) (by rintro ⟨⟩) h.2.2
  case h_10 => exact conditional_ne_nil h hk hw.terminated rfl
  case h_11 =>
    rw [advance_bind] at h
    obtain ⟨test, l, htest, h⟩ := bind_eq_ok.mp h
    obtain ⟨body, hbody, -⟩ := bind_pure_eq_ok.mp h
    have hspans := spans_of_ok (r := condition "while") trivial htest
    have hlen : 0 + 1 ≤ l.length := (spans_of_ok (r := block) trivial hbody).least
    have hl : Terminated l := by
      apply hw.terminated.suffix (hspans.suffix.trans htail)
      rintro rfl
      simp at hlen
    exact block_ne_nil hbody hl rfl
  case h_12 =>
    rw [advance_bind] at h
    exact function_ne_nil h (hw₁ (by rintro ⟨⟩)).terminated rfl
  case h_13 => exact hdec rfl
  case h_14 => exact absurd h (Ensures.not_ok (E := fun _ => True) (by simp) _ _)

/-- An operand that takes in the semicolon is a decorated declaration, and grows as that does. -/
theorem grows_primary (ih : Grows finish v n decorated) :
  Grows finish v (n + 1) primary
  := by
  intro s a b m hw _ h h'
  have hdec := primary_eq_nil hw h
  change Parse.primary finish (n + 1) s = _ at h
  change Parse.primary finish (n + 1) (s ++ v) = _ at h'
  rw [Parse.primary, here_bind, kind_bind] at h h'
  rw [hw.kindOf_append] at h'
  simp only [hdec] at h h'
  exact ih s a b m hw hdec h h'

/-- An operand that has taken in the semicolon is called or indexed by `v`, unless that is a
minus. -/
theorem grows_suffixed (hv : clings (kindOf v) = true) (ih : Grows finish v n primary) :
  Grows finish v (n + 1) suffixed
  := by
  intro s a b m hw _ h h'
  change Parse.suffixed finish (n + 1) s = _ at h
  change Parse.suffixed finish (n + 1) (s ++ v) = _ at h'
  rw [Parse.suffixed] at h h'
  have hstep := bind_append (r := primary) (ne_semicolon_of_clings hv) hw trivial (Int.le_refl 0)
    h h'
  clear h h'
  obtain ⟨e, l, -, hl, h, -⟩ | ⟨e, e', l, he, he', h, h'⟩ := hstep
  · exact absurd rfl (suffixes_ne_nil h hl.terminated)
  · obtain ⟨rfl, -⟩ := (suffixes_grow h).2.2 (by simp)
    obtain ⟨hle, hlt, heq⟩ := suffixes_grow h'
    rcases ih s a e' l hw trivial he he' with hless | ⟨hless, rfl, -⟩
    · exact .inl (Nat.lt_of_lt_of_le hless hle)
    · rcases clings_cases hv with hk | hk | hk
      · exact .inl (Nat.lt_of_le_of_lt hless (hlt (.inl hk)))
      · exact .inl (Nat.lt_of_le_of_lt hless (hlt (.inr hk)))
      · obtain ⟨rfl, rfl⟩ := heq (by simp [hk])
        exact .inr ⟨hless, rfl, hk⟩

/-- What is behind a prefix goes on with `v`. -/
theorem grows_unary (hthrow : Grows finish v n (binary assignLevel))
    (hnext : Grows finish v n unary) (hsuffixed : Grows finish v n suffixed) :
  Grows finish v (n + 1) unary
  := by
  intro s a b m hw _ h h'
  change Parse.unary finish (n + 1) s = _ at h
  change Parse.unary finish (n + 1) (s ++ v) = _ at h'
  rw [Parse.unary, here_bind, kind_bind] at h h'
  rw [hw.kindOf_append, hw.hereOf_append] at h'
  have hsemi {op : UnaryOp} (hop : UnaryOp.ofToken? (kindOf s) = some op) :
    kindOf s ≠ .semicolon
    := by
    rintro hk
    rw [hk] at hop
    cases hop
  cases hop : UnaryOp.ofToken? (kindOf s) with
  | none =>
      simp only [hop] at h h'
      exact hsuffixed s a b m hw trivial h h'
  | some op =>
      have hw₁ := hw.tail (hsemi hop)
      -- The operators but `throw` and `delete` are put in front of another operand.
      have again (hop' : op ≠ .throw) (hop'' : op ≠ .delete) :
        weight unary a < weight unary b
          ∨ (weight unary a ≤ weight unary b ∧ m = v ∧ Tight v unary)
        := by
        have h : (advance >>= fun _ => do
            return Expr.unary (hereOf finish s) op (← Parse.unary finish n)) s = .ok a [] := by
          simpa [hop, hop', hop''] using h
        have h' : (advance >>= fun _ => do
            return Expr.unary (hereOf finish s) op (← Parse.unary finish n)) (s ++ v) = .ok b m
          := by
          simpa [hop, hop', hop''] using h'
        rw [advance_bind] at h h'
        rw [hw.tail_append] at h'
        obtain ⟨e, he, rfl⟩ := bind_pure_eq_ok.mp h
        obtain ⟨e', he', rfl⟩ := bind_pure_eq_ok.mp h'
        simpa [Expr.operations, weight] using hnext s.tail e e' m hw₁ trivial he he'
      cases op with
      | throw =>
          simp only [hop, advance_bind] at h h'
          rw [hw.tail_append] at h'
          obtain ⟨e, he, rfl⟩ := bind_pure_eq_ok.mp h
          obtain ⟨e', he', rfl⟩ := bind_pure_eq_ok.mp h'
          rcases hthrow s.tail e e' m hw₁ trivial he he' with hlt | ⟨-, -, -, hlt⟩
          · left
            simpa [weight, Expr.operations] using hlt
          · simp [assignLevel] at hlt
      | delete =>
          simp only [hop, advance_bind, here_bind] at h
          rw [identifier_bind_eq_ok, pure_eq_ok] at h
          obtain ⟨hk, -, h⟩ := h
          exact absurd h (hw₁.tail (by simp [hk])).ne_nil
      | negate => exact again (by rintro ⟨⟩) (by rintro ⟨⟩)
      | not => exact again (by rintro ⟨⟩) (by rintro ⟨⟩)
      | typeOf => exact again (by rintro ⟨⟩) (by rintro ⟨⟩)

/-- What has grown in front of operators has grown with them. -/
theorem grows_operators {level : Nat} {left left' a b : Expr} {l : List Token}
    (hleft : left.operations < left'.operations
      ∨ (left.operations ≤ left'.operations ∧ l = v ∧ kindOf v = .minus))
    (h : Parse.binaryRest finish n level left [] = .ok a [])
    (h' : Parse.binaryRest finish n level left' l = .ok b m) :
  a.operations < b.operations
    ∨ (a.operations ≤ b.operations ∧ m = v ∧ kindOf v = .minus ∧ 4 < level)
  := by
  obtain ⟨rfl, -⟩ := (binaryRest_grow h).2.2 (.inl rfl)
  obtain ⟨hle, hlt, heq⟩ := binaryRest_grow h'
  rcases hleft with hless | ⟨hless, rfl, hk⟩
  · exact .inl (Nat.lt_of_lt_of_le hless hle)
  · by_cases hlevel : 4 < level
    · obtain ⟨rfl, rfl⟩ := heq (.inr ⟨hk, hlevel⟩)
      exact .inr ⟨hless, rfl, hk, hlevel⟩
    · exact .inl (Nat.lt_of_le_of_lt hless (hlt hk (by omega)))

/-- An operand that has taken in the semicolon has `v` as its suffix or as its operator. -/
theorem grows_binary {level : Nat} (hv : clings (kindOf v) = true) (hunary : Grows finish v n unary)
    (hrest : ∀ left, Grows finish v n (binaryRest level left)) :
  Grows finish v (n + 1) (binary level)
  := by
  intro s a b m hw _ h h'
  change Parse.binary finish (n + 1) level s = _ at h
  change Parse.binary finish (n + 1) level (s ++ v) = _ at h'
  rw [Parse.binary] at h h'
  have hstep := bind_append (r := unary) (ne_semicolon_of_clings hv) hw trivial (Int.le_refl 0)
    h h'
  clear h h'
  obtain ⟨left, l, -, hl, h, h'⟩ | ⟨left, left', l, hleft, hleft', h, h'⟩ := hstep
  · exact hrest left l a b m hl trivial h h'
  · exact grows_operators (hunary s left left' l hw trivial hleft hleft') h h'

/-- What goes on with `v` is the right side of the last operator, or what it makes. -/
theorem grows_binaryRest {level : Nat} {left : Expr} (hv : clings (kindOf v) = true)
    (hassign : Grows finish v n (assignment level left))
    (hbinary : ∀ k, Grows finish v n (binary k))
    (hrest : ∀ left, Grows finish v n (binaryRest level left)) :
  Grows finish v (n + 1) (binaryRest level left)
  := by
  intro s a b m hw _ h h'
  change Parse.binaryRest finish (n + 1) level left s = _ at h
  change Parse.binaryRest finish (n + 1) level left (s ++ v) = _ at h'
  rw [Parse.binaryRest, kind_bind] at h h'
  rw [hw.kindOf_append] at h'
  have stop {e : Expr} : (pure e : Parse Expr) s ≠ .ok a [] := by
    intro h
    exact hw.ne_nil (pure_eq_ok.mp h).2
  by_cases hk : kindOf s = .assign
  · simp only [hk, ↓reduceIte] at h h'
    by_cases hlevel : assignLevel < level
    · simp only [hlevel, ↓reduceIte] at h
      exact absurd h stop
    · simp only [hlevel, ↓reduceIte] at h h'
      exact hassign s a b m hw hk h h'
  · simp only [hk, ↓reduceIte] at h h'
    cases hop : BinaryOp.ofToken? (kindOf s) with
    | none =>
        simp only [hop] at h
        exact absurd h stop
    | some op =>
        simp only [hop] at h h'
        by_cases hlevel : op.level < level
        · simp only [hlevel, ↓reduceIte] at h
          exact absurd h stop
        · simp only [hlevel, ↓reduceIte, here_bind, advance_bind] at h h'
          have hw₁ := hw.tail (by
            intro hsemi
            rw [hsemi] at hop
            cases hop)
          rw [hw.tail_append, hw.hereOf_append] at h'
          have hstep := bind_append (r := binary op.rightLevel) (ne_semicolon_of_clings hv) hw₁
            trivial (Int.le_refl 0) h h'
          clear h h'
          obtain ⟨right, l, -, hl, h, h'⟩ | ⟨right, right', l, hright, hright', h, h'⟩ := hstep
          · exact hrest (.binary _ op left right) l a b m hl trivial h h'
          · refine grows_operators ?_ h h'
            rcases hbinary op.rightLevel s.tail right right' l hw₁ trivial hright hright' with
              hlt | ⟨hle, rfl, hminus, -⟩
            · left
              simpa [weight, Expr.operations] using hlt
            · right
              refine ⟨?_, rfl, hminus⟩
              simpa [weight, Expr.operations] using hle

/-- What goes on with `v` is the value of the assignment, or what it makes. -/
theorem grows_assignment {level : Nat} {left : Expr} (hv : clings (kindOf v) = true)
    (hbinary : Grows finish v n (binary assignLevel))
    (hrest : ∀ left, Grows finish v n (binaryRest level left)) :
  Grows finish v (n + 1) (assignment level left)
  := by
  intro s a b m hw hs h h'
  change Parse.assignment finish (n + 1) level left s = _ at h
  change Parse.assignment finish (n + 1) level left (s ++ v) = _ at h'
  change kindOf s = _ at hs
  have hw₁ := hw.tail (by simp [hs])
  rw [Parse.assignment, here_bind, advance_bind] at h h'
  rw [hw.tail_append] at h'
  cases left with
  | name pos x =>
      have hstep := bind_append (r := binary assignLevel) (ne_semicolon_of_clings hv) hw₁ trivial
        (Int.le_refl 0) h h'
      clear h h'
      obtain ⟨value, l, -, hl, h, h'⟩ | ⟨value, value', l, hvalue, hvalue', h, h'⟩ := hstep
      · exact hrest (.assign pos x value) l a b m hl trivial h h'
      · refine grows_operators ?_ h h'
        rcases hbinary s.tail value value' l hw₁ trivial hvalue hvalue' with hlt | ⟨-, -, -, hlt⟩
        · left
          simpa [weight, Expr.operations] using hlt
        · simp [assignLevel] at hlt
  | _ => cases h

/-- What takes in the semicolon at the end grows. -/
theorem grows (hv : clings (kindOf v) = true) (finish : Position) (n : Nat) {r : Rule}
    (hr : r.trails = true) :
  Grows finish v n r
  := by
  induction n generalizing r with
  | zero =>
      intro s a b m _ _ h
      have hp : r ≠ params := by
        rintro rfl
        cases hr
      have hu : r ≠ useStatement := by
        rintro rfl
        cases hr
      rw [run_zero finish r hp hu] at h
      exact absurd h (Ensures.not_ok (E := fun _ => True) (by simp) _ _)
  | succ n ih =>
      cases r with
      | letStatement => exact grows_letStatement hv (ih rfl)
      | funcStatement => exact grows_funcStatement hv
      | declaration => exact grows_declaration (ih rfl) (ih rfl) (ih rfl)
      | decorated => exact grows_decorated hv (ih rfl)
      | primary => exact grows_primary (ih rfl)
      | suffixed => exact grows_suffixed hv (ih rfl)
      | unary => exact grows_unary (ih rfl) (ih rfl) (ih rfl)
      | binary level => exact grows_binary hv (ih rfl) fun _ => ih rfl
      | binaryRest level left =>
          exact grows_binaryRest hv (ih rfl) (fun _ => ih rfl) fun _ => ih rfl
      | assignment level left => exact grows_assignment hv (ih rfl) fun _ => ih rfl
      | _ => cases hr

end Rule

end Parse

end Scriptlet
