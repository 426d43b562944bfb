import Scriptlet.Proofs.Parsing.Simulation

/-!
# Statements, one after the other

A run over all tokens follows a run over changed tokens: as long as tokens of the first run are
left, both find the same statements and the same tries fail, and then the second run goes on with
what stands there.
-/

namespace Scriptlet

namespace Parse

variable {c : Change} {l m : List Token}

/-- The tokens in front of which parsing goes on after an error. -/
def restarts (kind : TokenKind) : Bool :=
  [.letWord, .returnWord, .useWord, .decorator].contains kind

/-- After an error, tokens are skipped up to a semicolon or a keyword that starts a statement. -/
theorem resume_cons (t : Token) (ts : List Token) :
  resume (t :: ts)
    = if t.kind = .semicolon then ts else if restarts t.kind then t :: ts else resume ts
  := by
  cases hk : t.kind
  all_goals simp [resume, restarts, hk]

/-- What is gone on with after an error was there before. -/
theorem resume_suffix (l : List Token) :
  resume l <:+ l
  := by
  induction l with
  | nil => exact List.suffix_rfl
  | cons t ts ih =>
      rw [resume_cons]
      split
      · exact List.suffix_cons t ts
      · split
        · exact List.suffix_rfl
        · exact ih.trans (List.suffix_cons t ts)

/-- What a try leaves behind an error is shorter than what it was given. -/
theorem resumeAfter_suffix {t : Token} {ts rest : List Token} (h : rest <:+ t :: ts) :
  resumeAfter t.position rest <:+ ts
  := by
  unfold resumeAfter
  rcases List.suffix_cons_iff.mp h with rfl | h
  · simpa using resume_suffix ts
  · split
    · exact (resume_suffix _).trans ((List.tail_suffix rest).trans h)
    · exact (resume_suffix rest).trans h

/-- Going on after an error is the same along changed tokens, if it is where the tokens of the
first run end or is not reached there. -/
theorem resume_along (h : Along c l m)
    (hl : (∀ m, c.ends m → c.ends (resume m)) ∨ Terminated l) :
  Along c (resume l) (resume m)
  := by
  induction h with
  | ends hm =>
      rcases hl with hl | hl
      · exact .ends (hl _ hm)
      · simp at hl
  | @cons t l m h ih =>
      simp only [resume_cons, Token.move_kind]
      by_cases hk : t.kind = .semicolon
      · simpa only [hk, ↓reduceIte] using h
      · by_cases hr : restarts t.kind = true
        · simpa only [hk, hr, ↓reduceIte] using h.cons t
        · simp only [hk, hr, ↓reduceIte]
          apply ih
          apply hl.imp_right
          intro hterm
          cases l with
          | nil => exact absurd ((terminated_singleton t).mp hterm) hk
          | cons u l => exact (terminated_cons t (by simp)).mp hterm

section

variable {finish : Position} {fuel k : Nat} {t : Token} {ts rest : List Token}

/-- Where no tokens are, there are no statements. -/
@[simp] theorem statements_nil :
  statements finish fuel k [] = ([], [])
  := by
  cases k with
  | zero => rfl
  | succ k => rfl

/-- A semicolon on its own is no statement. -/
theorem statements_semicolon (ht : t.kind = .semicolon) :
  statements finish fuel (k + 1) (t :: ts) = statements finish fuel k ts
  := by
  simp [statements, ht]

/-- A statement that can be parsed is followed by those behind it. -/
theorem statements_ok (ht : t.kind ≠ .semicolon) {s : Stmt}
    (h : statement finish fuel (t :: ts) = .ok s rest) :
  statements finish fuel (k + 1) (t :: ts)
    = (s :: (statements finish fuel k rest).1, (statements finish fuel k rest).2)
  := by
  simp [statements, ht, h]

/-- An error is followed by the statements from where parsing goes on. -/
theorem statements_error (ht : t.kind ≠ .semicolon) {e : SyntaxError}
    (h : statement finish fuel (t :: ts) = .error e rest) :
  statements finish fuel (k + 1) (t :: ts)
    = ((statements finish fuel k (resumeAfter t.position rest)).1,
        e :: (statements finish fuel k (resumeAfter t.position rest)).2)
  := by
  simp [statements, ht, h]

end

/-- The second run does what the first one does, and then what `tail` says. -/
structure Continues (c : Change) (tail found found' : List Stmt × List SyntaxError) : Prop where
  statements : found'.1 = found.1.map (Stmt.map c.move id) ++ tail.1
  errors : found'.2 = [] ↔ found.2 = [] ∧ tail.2 = []

/-- Whether going on after an error is possible where the tokens `l` of the first run end. -/
structure Change.Resumes (c : Change) (l : List Token) : Prop where
  firm : c.Firm
  resume : ∀ m, c.ends m → c.ends (resume m)
  after : ∀ t ∈ l, ∀ m, c.ends m → c.ends (resumeAfter (c.move t.position) m)

/-- Whether the tokens have different positions. -/
def Distinct (l : List Token) : Prop :=
  (l.map Token.position).Nodup

/-- What is left of tokens with different positions has different positions. -/
theorem Distinct.suffix (h : Distinct l) (hm : m <:+ l) :
  Distinct m
  := h.sublist (hm.sublist.map _)

/-- Whether the statements of `l` and what stands behind them can be told apart: either that is
as good as the end of the source, or the tokens end in a semicolon, and what stands behind it does
not go on with a statement that has read the semicolon. -/
structure Change.Separates (c : Change) (l : List Token) : Prop where
  fit : c.Plain ∨ l = [] ∨ Terminated l
  closed : c.Plain ∨ ∀ s, s <:+ l → 0 ≤ excess s
  quiet : c.Quiet ∨ ¬ Open c.finish l

/-- Statements that can be told apart from what stands behind can be so further on. -/
theorem Change.Separates.suffix (h : c.Separates l) (hm : m <:+ l) :
  c.Separates m
  where
  fit := by
    rcases h.fit with hp | rfl | hterm
    · exact .inl hp
    · exact .inr (.inl (List.suffix_nil.mp hm))
    · by_cases hm' : m = []
      · exact .inr (.inl hm')
      · exact .inr (.inr (hterm.suffix hm hm'))
  closed := h.closed.imp_right fun hs s hsl => hs s (hsl.trans hm)
  quiet := h.quiet.imp_right fun ho hopen => ho (hopen.suffix hm)

/-- Whether an error among the tokens is met before the last of them, a semicolon, is read. -/
structure Contained (l : List Token) : Prop where
  undecorated : ¬ Decorates l
  distinct : Distinct l
  terminated : l = [] ∨ Terminated l
  closed : ∀ s, s <:+ l → 0 ≤ excess s

/-- An error is met in time in what is left, too. -/
theorem Contained.suffix (h : Contained l) (hm : m <:+ l) :
  Contained m
  where
  undecorated := fun hd => h.undecorated (hd.suffix hm)
  distinct := h.distinct.suffix hm
  terminated := by
    by_cases hm' : m = []
    · exact .inl hm'
    · right
      rcases h.terminated with rfl | hterm
      · exact absurd (List.suffix_nil.mp hm) hm'
      · exact hterm.suffix hm hm'
  closed := fun s hsm => h.closed s (hsm.trans hm)

/-- Whether an error among the tokens `l` makes no difference to what stands behind them. -/
def Change.Recovers (c : Change) (l : List Token) : Prop :=
  c.Resumes l ∨ Contained l

/-- An error makes no difference in what is left, either. -/
theorem Change.Recovers.suffix (h : c.Recovers l) (hm : m <:+ l) :
  c.Recovers m
  := by
  rcases h with h | h
  · left
    exact { h with after := fun t ht => h.after t (hm.subset ht) }
  · exact .inr (h.suffix hm)

/-- Both runs of a statement. -/
theorem follows_statement {t : Token} {fuel fuel' : Nat}
    (h : Along c (t :: l) m) (hs : c.Separates (t :: l))
    (hfuel : 10 * (t :: l).length + 10 ≤ fuel) (hfuel' : 10 * (t :: l).length + 10 ≤ fuel') :
  Follows c (t :: l) (Stmt.map c.move id) (statement c.finish fuel) (statement c.finish' fuel')
    (t :: l) m
  := by
  have track : Track c (t :: l) fuel fuel' 10 (t :: l) m := {
    along := h
    suffix := List.suffix_rfl
    live := .inl (by rintro ⟨⟩)
    fit := hs.fit
    closed := hs.closed
    fuel := hfuel
    fuel' := hfuel' }
  exact Rule.simulated c fuel fuel' .statement _ _ _ _ track rfl trivial
    (.inr (.inr (by rintro ⟨⟩)))
    track.balanced

/-- Both runs after an error. -/
theorem resumeAfter_along {t : Token} {rest rest' : List Token}
    (hmove : Function.Injective c.move) (h : Along c rest rest') (hrest : rest <:+ t :: l)
    (ht : t.kind ≠ .semicolon) (hr : c.Recovers (t :: l))
    (hnil : rest ≠ [] ∨ c.Resumes (t :: l)) :
  Along c (resumeAfter t.position rest) (resumeAfter (c.move t.position) rest')
  := by
  cases h with
  | ends hm =>
      have hres := hnil.resolve_left (by simp)
      exact .ends (hres.after t List.mem_cons_self _ hm)
  | @cons u r r' h =>
      have hpos : c.move u.position = c.move t.position ↔ u.position = t.position :=
        hmove.eq_iff
      by_cases hu : u.position = t.position
      · simp only [resumeAfter, List.head?_cons, Option.any_some, Token.move_position, hu,
          decide_true, ↓reduceIte, List.tail_cons]
        apply resume_along h
        rcases hr with hr | hr
        · exact .inl hr.resume
        · -- Only the first token is where the statement starts.
          right
          have hterm := hr.terminated.resolve_left (by simp)
          rcases List.suffix_cons_iff.mp hrest with heq | hsuffix
          · obtain ⟨rfl, rfl⟩ := List.cons.inj heq
            cases r with
            | nil => exact absurd ((terminated_singleton u).mp hterm) ht
            | cons v r => exact (terminated_cons u (by simp)).mp hterm
          · have hmem : u ∈ l := hsuffix.subset List.mem_cons_self
            have := (List.nodup_cons.mp hr.distinct).1
            exact absurd (List.mem_map.mpr ⟨u, hmem, hu⟩) this
      · simp only [resumeAfter, List.head?_cons, Option.any_some, Token.move_position, hpos, hu,
          decide_false, Bool.false_eq_true, ↓reduceIte]
        apply resume_along (h.cons u)
        rcases hr with hr | hr
        · exact .inl hr.resume
        · right
          exact (hr.terminated.resolve_left (by simp)).suffix hrest (by simp)

/-- The second run finds the statements of the first one and then what stands behind them. -/
theorem statements_along {tail : List Stmt × List SyntaxError} {fuel fuel' : Nat}
    (hend : ∀ k' m, c.ends m → m.length ≤ k' →
      Continues c tail ([], []) (statements c.finish' fuel' k' m))
    (k k' : Nat) (h : Along c l m) (hk : l.length ≤ k) (hk' : m.length ≤ k')
    (hfuel : 10 * l.length + 10 ≤ fuel) (hfuel' : 10 * l.length + 10 ≤ fuel')
    (hs : c.Separates l) (hr : c.Recovers l ∨ (statements c.finish fuel k l).2 = [])
    (hmove : Function.Injective c.move ∨ (statements c.finish' fuel' k' m).2 = []) :
  Continues c tail (statements c.finish fuel k l) (statements c.finish' fuel' k' m)
  := by
  induction k generalizing k' l m with
  | zero =>
      obtain rfl : l = [] := by simpa using hk
      exact hend k' m (along_nil.mp h) hk'
  | succ k ih =>
      cases l with
      | nil =>
          rw [statements_nil]
          exact hend k' m (along_nil.mp h) hk'
      | cons t l =>
          cases h with
          | @cons _ _ m h =>
              obtain ⟨k', rfl⟩ : ∃ j, k' = j + 1 := ⟨k' - 1, by simp at hk'; omega⟩
              simp only [List.length_cons, Nat.add_le_add_iff_right] at hk hk' hfuel hfuel'
              by_cases ht : t.kind = .semicolon
              · rw [statements_semicolon ht] at hr ⊢
                rw [statements_semicolon (by exact ht)] at hmove ⊢
                have hsuffix := List.suffix_cons t l
                apply ih k' h hk hk' (by omega) (by omega) (hs.suffix hsuffix) _ hmove
                exact hr.imp_left fun hr => hr.suffix hsuffix
              · have hf := follows_statement (h.cons t) hs hfuel hfuel'
                unfold Follows at hf
                cases hrun : statement c.finish fuel (t :: l) with
                | ok s rest =>
                    rw [hrun] at hf
                    -- Both runs make the statement, and both go on with less.
                    obtain ⟨rest', hrun', ha⟩ := hf (.inr hs.quiet)
                    have hspans := Rule.spans_of_ok (r := .statement) trivial hrun
                    have hlen : rest.length + 1 ≤ l.length + 1 := hspans.least
                    have hlen' : rest'.length + 1 ≤ m.length + 1 :=
                      (Rule.spans_of_ok (r := .statement) trivial hrun').least
                    rw [statements_ok ht hrun] at hr ⊢
                    rw [statements_ok (by exact ht) hrun'] at hmove ⊢
                    have := ih k' ha (by omega) (by omega) (by omega) (by omega)
                      (hs.suffix hspans.suffix) (hr.imp_left fun hr => hr.suffix hspans.suffix)
                      hmove
                    constructor
                    · simp [this.statements]
                    · exact this.errors
                | error e rest =>
                    rw [hrun] at hf
                    rw [statements_error ht hrun] at hr ⊢
                    have hr : c.Recovers (t :: l) := hr.resolve_right (by simp)
                    have hfails : Fails 0 (t :: l) rest :=
                      Rule.fails_of_error (r := .statement) trivial hrun
                    -- Where all tokens are left behind, the runs go on alike only if parsing can
                    -- go on there.
                    have hnil : rest ≠ [] ∨ c.Resumes (t :: l) := by
                      rcases hr with hr | hr
                      · exact .inr hr
                      · left
                        intro hrest
                        have hterm := hr.terminated.resolve_left (by simp)
                        rcases hfails.last hrest hterm with hdec | hexcess
                        · exact hr.undecorated hdec
                        · have := hr.closed _ List.suffix_rfl
                          omega
                    obtain ⟨e', rest', hrun', ha⟩ := hf (hnil.imp_right Change.Resumes.firm)
                    have hfails' : Fails 0 (t.move c.move :: m) rest' :=
                      Rule.fails_of_error (r := .statement) trivial hrun'
                    have hsuffix := resumeAfter_suffix hfails.suffix
                    have hlen := hsuffix.length_le
                    have hlen' := (resumeAfter_suffix hfails'.suffix).length_le
                    have hsuffix := hsuffix.trans (List.suffix_cons t l)
                    rw [statements_error (by exact ht) hrun'] at hmove ⊢
                    have hmove := hmove.resolve_right (by simp)
                    have := ih k' (resumeAfter_along hmove ha hfails.suffix ht hr hnil)
                      (by omega) (Nat.le_trans hlen' hk') (by omega) (by omega)
                      (hs.suffix hsuffix) (.inl (hr.suffix hsuffix)) (.inl hmove)
                    constructor
                    · simpa using this.statements
                    · simp

/-! ### Where the source ends -/

/-- Going on is possible at the end and at semicolons. -/
theorem Change.Plain.resumes (hp : c.Plain) (l : List Token) :
  c.Resumes l
  := by
  have hresume (m : List Token) (hm : c.ends m) : c.ends (resume m) := by
    rcases m with _ | ⟨t, ts⟩
    · exact hm
    · have ht : t.kind = .semicolon := (hp _ hm).resolve_left (by simp)
      simpa [resume_cons, dropSemicolon, ht] using c.drop _ hm
  constructor
  · exact hp.firm
  · exact hresume
  · intro t _ m hm
    unfold resumeAfter
    split
    · apply hresume
      rcases m with _ | ⟨u, ts⟩
      · exact hm
      · have hu : u.kind = .semicolon := (hp _ hm).resolve_left (by simp)
        simpa [dropSemicolon, hu] using c.drop _ hm
    · exact hresume m hm

/-- The end and semicolons are no statements. -/
theorem statements_ends (hp : c.Plain) (hm : c.ends m) (finish : Position) (fuel k : Nat) :
  statements finish fuel k m = ([], [])
  := by
  induction k generalizing m with
  | zero => rfl
  | succ k ih =>
      rcases m with _ | ⟨t, ts⟩
      · rfl
      · have ht : t.kind = .semicolon := (hp _ hm).resolve_left (by simp)
        rw [statements_semicolon ht]
        apply ih
        simpa [dropSemicolon, ht] using c.drop _ hm

/-- Along tokens that only move and at most have semicolons behind them, the same statements are
found and the same tries fail. -/
theorem statements_plain (hp : c.Plain) {fuel fuel' k k' : Nat} (h : Along c l m)
    (hk : l.length ≤ k) (hk' : m.length ≤ k') (hfuel : 10 * l.length + 10 ≤ fuel)
    (hfuel' : 10 * l.length + 10 ≤ fuel')
    (hmove : Function.Injective c.move ∨ (statements c.finish' fuel' k' m).2 = []) :
  Continues c ([], []) (statements c.finish fuel k l) (statements c.finish' fuel' k' m)
  := by
  apply statements_along _ k k' h hk hk' hfuel hfuel' _ _ hmove
  · intro k' m hm _
    rw [statements_ends hp hm]
    exact ⟨rfl, by simp⟩
  · exact ⟨.inl hp, .inl hp, .inl hp.quiet⟩
  · exact .inl (.inl (hp.resumes l))

/-! ### Whole sources -/

/-- The statements that can be parsed from tokens and the errors of those that cannot. -/
def parseTokens (finish : Position) (l : List Token) : List Stmt × List SyntaxError :=
  statements finish (10 * l.length + 10) l.length l

/-- Positions move and nothing else changes. -/
def Change.moving (f : Position → Position) (finish finish' : Position) : Change where
  move := f
  ends := (· = [])
  drop := by
    rintro _ rfl
    rfl
  finish := finish
  finish' := finish'

/-- Semicolons follow. -/
def Change.closing (finish finish' : Position) : Change where
  move := id
  ends := fun m => ∀ t ∈ m, t.kind = .semicolon
  drop := by
    intro m hm
    unfold dropSemicolon
    split
    · exact fun t ht => hm t (List.mem_of_mem_tail ht)
    · exact hm
  finish := finish
  finish' := finish'

/-- The tokens `v` follow. -/
def Change.followedBy (v : List Token) (finish finish' : Position) : Change where
  move := id
  ends := fun m => ∃ p, v = p ++ m ∧ ∀ t ∈ p, t.kind = .semicolon
  drop := by
    rintro m ⟨p, rfl, hp⟩
    unfold dropSemicolon
    split
    next hm =>
      rcases m with _ | ⟨t, m⟩
      · cases hm
      · refine ⟨p ++ [t], by simp, ?_⟩
        intro u hu
        rcases List.mem_append.mp hu with hu | hu
        · exact hp u hu
        · obtain rfl := List.mem_singleton.mp hu
          exact hm
    next => exact ⟨p, rfl, hp⟩
  finish := finish
  finish' := finish'

/-- Moved tokens correspond to the tokens. -/
theorem along_moving (f : Position → Position) (finish finish' : Position) (l : List Token) :
  Along (.moving f finish finish') l (l.map (Token.move f))
  := by
  induction l with
  | nil => exact .ends rfl
  | cons t l ih => exact .cons t ih

/-- Tokens with semicolons behind correspond to the tokens. -/
theorem along_closing {finish finish' : Position} (l : List Token) {u : List Token}
    (hu : ∀ t ∈ u, t.kind = .semicolon) :
  Along (.closing finish finish') l (l ++ u)
  := by
  induction l with
  | nil => exact .ends hu
  | cons t l ih => exact .cons t ih

/-- Tokens with `v` behind correspond to the tokens. -/
theorem along_followedBy (finish finish' : Position) (l v : List Token) :
  Along (.followedBy v finish finish') l (l ++ v)
  := by
  induction l with
  | nil => exact .ends ⟨[], rfl, by simp⟩
  | cons t l ih => exact .cons t ih

/-- Tokens that have moved hold the same statements, which have moved with them.  They may all
move to the same place if nothing is wrong with them there. -/
theorem parseTokens_move {f : Position → Position} (finish finish' : Position) (l : List Token)
    (hf : Function.Injective f ∨ (parseTokens finish' (l.map (Token.move f))).2 = []) :
  (parseTokens finish' (l.map (Token.move f))).1 = (parseTokens finish l).1.map (Stmt.map f id)
    ∧ ((parseTokens finish' (l.map (Token.move f))).2 = [] ↔ (parseTokens finish l).2 = [])
  := by
  have hp : (Change.moving f finish finish').Plain := fun m hm => .inl hm
  have h : Continues (.moving f finish finish') ([], []) (parseTokens finish l)
      (parseTokens finish' (l.map (Token.move f))) := by
    apply statements_plain hp (along_moving f finish finish' l) (Nat.le_refl _)
      (Nat.le_refl _) (Nat.le_refl _) _ hf
    simp
  constructor
  · simpa [Change.moving] using h.statements
  · simpa using h.errors

/-- Semicolons are as good as the end. -/
theorem closing_plain (finish finish' : Position) :
  (Change.closing finish finish').Plain
  := by
  intro m hm
  rcases m with _ | ⟨t, m⟩
  · exact .inl rfl
  · exact .inr (hm t List.mem_cons_self)

/-- Semicolons at the end make no difference to what is found. -/
theorem parseTokens_semicolons (finish finish' : Position) (l : List Token) {u : List Token}
    (hu : ∀ t ∈ u, t.kind = .semicolon) :
  (parseTokens finish' (l ++ u)).1 = (parseTokens finish l).1
    ∧ ((parseTokens finish' (l ++ u)).2 = [] ↔ (parseTokens finish l).2 = [])
  := by
  have h : Continues (.closing finish finish') ([], []) (parseTokens finish l)
      (parseTokens finish' (l ++ u)) := by
    apply statements_plain (closing_plain finish finish') (along_closing l hu) (Nat.le_refl _)
      (Nat.le_refl _) (Nat.le_refl _) _ (.inl Function.injective_id)
    simp only [List.length_append]
    omega
  constructor
  · simpa [Change.closing] using h.statements
  · simpa using h.errors

/-- More fuel makes no difference to what is found. -/
theorem parseTokens_fuel (finish : Position) (fuel : Nat) {k : Nat} {l : List Token}
    (hk : l.length ≤ k) (hfuel : 10 * l.length + 10 ≤ fuel) :
  Continues (.closing finish finish) ([], []) (parseTokens finish l)
    (statements finish fuel k l)
  := by
  have h : Along (.closing finish finish) l (l ++ []) := along_closing l (by simp)
  rw [List.append_nil] at h
  exact statements_plain (closing_plain finish finish) h (Nat.le_refl _) hk (Nat.le_refl _) hfuel
    (.inl Function.injective_id)

/-- Semicolons in front are no statements. -/
theorem statements_append_semicolons (finish : Position) (fuel k : Nat) {p l : List Token}
    (hp : ∀ t ∈ p, t.kind = .semicolon) :
  statements finish fuel (p.length + k) (p ++ l) = statements finish fuel k l
  := by
  induction p with
  | nil => simp
  | cons t p ih =>
      have ht : t.kind = .semicolon := hp t List.mem_cons_self
      have hlen : (t :: p).length + k = (p.length + k) + 1 := by
        simp
        omega
      rw [hlen, List.cons_append, statements_semicolon ht]
      exact ih fun u hu => hp u (List.mem_cons_of_mem t hu)

/-- Semicolons in front make no difference to what is found. -/
theorem parseTokens_leading (finish : Position) {p : List Token} (l : List Token)
    (hp : ∀ t ∈ p, t.kind = .semicolon) :
  (parseTokens finish (p ++ l)).1 = (parseTokens finish l).1
    ∧ ((parseTokens finish (p ++ l)).2 = [] ↔ (parseTokens finish l).2 = [])
  := by
  have h := parseTokens_fuel finish (10 * (p ++ l).length + 10) (Nat.le_refl l.length)
    (by simp only [List.length_append]; omega)
  have heq : parseTokens finish (p ++ l)
      = statements finish (10 * (p ++ l).length + 10) l.length l := by
    rw [parseTokens, List.length_append, statements_append_semicolons finish _ _ hp]
  rw [heq]
  constructor
  · simpa [Change.closing] using h.statements
  · simpa using h.errors

/-- Where the tokens `l` and `v` can be told apart, the statements of both are found. -/
theorem parseTokens_append (finish finish' : Position) (l v : List Token)
    (hs : (Change.followedBy v finish finish').Separates l)
    (hr : (Change.followedBy v finish finish').Recovers l ∨ (parseTokens finish l).2 = []) :
  (parseTokens finish' (l ++ v)).1 = (parseTokens finish l).1 ++ (parseTokens finish' v).1
    ∧ ((parseTokens finish' (l ++ v)).2 = []
      ↔ (parseTokens finish l).2 = [] ∧ (parseTokens finish' v).2 = [])
  := by
  have h : Continues (.followedBy v finish finish') (parseTokens finish' v)
      (parseTokens finish l) (parseTokens finish' (l ++ v)) := by
    apply statements_along _ _ _ (along_followedBy finish finish' l v) (Nat.le_refl _)
      (Nat.le_refl _) (Nat.le_refl _) _ hs hr (.inl Function.injective_id)
    · rintro k' m ⟨p, rfl, hp⟩ hk'
      obtain ⟨hfound, herrors⟩ := parseTokens_leading finish' m hp
      have h' := parseTokens_fuel finish' (10 * (l ++ (p ++ m)).length + 10) hk'
        (by simp only [List.length_append]; omega)
      constructor
      · show (statements finish' _ k' m).1 = _
        rw [h'.statements, hfound]
        simp [Change.closing]
      · show (statements finish' _ k' m).2 = [] ↔ _
        rw [h'.errors, herrors]
        simp
    · simp only [List.length_append]
      omega
  constructor
  · simpa [Change.followedBy] using h.statements
  · exact h.errors

end Parse

/-- A text is parsed from its tokens. -/
theorem Program.parse_eq (text file : String) :
  Program.parse text file
    = (⟨(Parse.parseTokens (Source.finish text) (Source.tokens text)).1, file⟩,
        (Parse.parseTokens (Source.finish text) (Source.tokens text)).2)
  := rfl

end Scriptlet
