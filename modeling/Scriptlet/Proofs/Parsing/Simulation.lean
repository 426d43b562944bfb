import Scriptlet.Proofs.Parsing.Along

/-!
# The second run follows the first

Every rule with enough fuel follows itself along changed tokens: positions move with the tokens,
and neither the fuel, nor the position of the end, nor what stands behind the tokens that the
first run reads makes a difference.  What stands behind them matters in a block that the first
run never closes and behind a last `return`, so the tokens have to end in a semicolon with every
brace closed unless it is the end, or a semicolon, that stands there.
-/

namespace Scriptlet

namespace Parse

namespace Rule

/-- How many rules can be tried one inside the other before a token is read. -/
def rank : Rule → Nat
  | blockRest _ => 8
  | statement | hashEntries => 7
  | exprStatement | hashKey | expressions _ => 6
  | binary _ => 5
  | unary => 4
  | suffixed => 3
  | primary | binaryRest _ _ | declaration => 2
  | _ => 1

/-- Whether a rule can be tried where no tokens are left. -/
def returns : Rule → Bool
  | suffixes _ | binaryRest _ _ | block => true
  | _ => false

/-- The function of a rule with the positions that it is given moved. -/
@[reducible] def runMoved (f : Position → Position) (finish : Position) (n : Nat) :
    (r : Rule) → Parse r.Result
  | statement => Parse.statement finish n
  | exprStatement => Parse.exprStatement finish n
  | letStatement => Parse.letStatement finish n
  | returnStatement => Parse.returnStatement finish n
  | useStatement => Parse.useStatement finish
  | funcStatement => Parse.funcStatement finish n
  | function pos => Parse.function finish n (f pos)
  | params => Parse.params finish n
  | paramNames found => Parse.paramNames finish n found
  | block => Parse.block finish n
  | blockRest start => Parse.blockRest finish n (f start)
  | binary level => Parse.binary finish n level
  | binaryRest level left => Parse.binaryRest finish n level (left.map f id)
  | assignment level left => Parse.assignment finish n level (left.map f id)
  | unary => Parse.unary finish n
  | suffixed => Parse.suffixed finish n
  | suffixes e => Parse.suffixes finish n (e.map f id)
  | expressions stop => Parse.expressions finish n stop
  | primary => Parse.primary finish n
  | hashEntries => Parse.hashEntries finish n
  | hashKey => Parse.hashKey finish n
  | condition keyword => Parse.condition finish n keyword
  | conditional => Parse.conditional finish n
  | decorated => Parse.decorated finish n
  | declaration => Parse.declaration finish n

/-- What a rule makes, with its positions moved. -/
@[reducible] def moved (f : Position → Position) : (r : Rule) → r.Result → r.Result
  | statement | exprStatement | letStatement | returnStatement | useStatement | funcStatement
  | declaration => Stmt.map f id
  | function _ | binary _ | binaryRest _ _ | assignment _ _ | unary | suffixed | suffixes _
  | primary | hashKey | condition _ | conditional | decorated => Expr.map f id
  | params | paramNames _ => id
  | block | blockRest _ => Stmt.mapAll f id
  | expressions _ => Expr.mapAll f id
  | hashEntries => Expr.mapEntries f id

end Rule

/-- Where two runs with `n` and `n'` units of fuel are when they have come from `start` to `l` and
`m`, with room for rules of less than rank `k`. -/
structure Track (c : Change) (start : List Token) (n n' k : Nat) (l m : List Token) : Prop where
  along : Along c l m
  suffix : l <:+ start
  live : l ≠ [] ∨ c.Quiet
  fit : c.Plain ∨ l = [] ∨ Terminated l
  closed : c.Plain ∨ ∀ s, s <:+ l → 0 ≤ excess s
  fuel : 10 * l.length + k ≤ n
  fuel' : 10 * l.length + k ≤ n'

namespace Track

variable {c : Change} {start l m : List Token} {n n' k : Nat} {t : Token}

/-- Behind a token that is no semicolon, nothing is left only if that makes no difference. -/
theorem ready (h : Track c start n n' k (t :: l) (t.move c.move :: m))
    (ht : t.kind ≠ .semicolon) :
  c.Plain ∨ l ≠ []
  := by
  rcases h.fit with hp | hnil | hterm
  · exact .inl hp
  · contradiction
  · right
    rintro rfl
    exact ht ((terminated_singleton t).mp hterm)

/-- Reading a token behind which something is left. -/
theorem step (h : Track c start n n' k (t :: l) (t.move c.move :: m)) (hl : c.Plain ∨ l ≠ []) :
  Track c start n n' 10 l m
  where
  along := (along_cons.mp h.along).2
  suffix := (List.suffix_cons t l).trans h.suffix
  live := (hl.imp_left Change.Plain.quiet).symm
  fit := by
    rcases h.fit with hp | hnil | hterm
    · exact .inl hp
    · contradiction
    · right
      by_cases hl : l = []
      · exact .inl hl
      · exact .inr (hterm.suffix (List.suffix_cons t l) hl)
  closed := h.closed.imp_right fun hs s hsl => hs s (hsl.trans (List.suffix_cons t l))
  fuel := by
    have := h.fuel
    simp at this
    omega
  fuel' := by
    have := h.fuel'
    simp at this
    omega

/-- Reading a token that is no semicolon. -/
theorem tail (h : Track c start n n' k (t :: l) (t.move c.move :: m))
    (ht : t.kind ≠ .semicolon) :
  Track c start n n' 10 l m
  := h.step (h.ready ht)

/-- The kinds behind a token that is no semicolon are told apart in both runs alike. -/
theorem peek (h : Track c start n n' k (t :: l) (t.move c.move :: m)) (ht : t.kind ≠ .semicolon)
    (kind : TokenKind) (hkind : (!List.contains [.eof, .semicolon] kind) = true) :
  kindOf l = kind ↔ kindOf m = kind
  := by
  rcases (along_cons.mp h.along).2 with hm | ⟨u, hm⟩
  · have hp : c.Plain := (h.ready ht).resolve_right (by simp)
    simp only [Bool.not_eq_true', List.contains_eq_mem, List.mem_cons, List.not_mem_nil,
      or_false, decide_eq_false_iff_not, not_or] at hkind
    rcases hp.kindOf hm with hk | hk
    · simp [hk]
    · rw [hk]
      constructor
      · intro heof
        exact absurd heof.symm hkind.1
      · intro hsemi
        exact absurd hsemi.symm hkind.2
  · rfl

/-- A kind that goes on with what is complete is met in both runs alike. -/
theorem continuing (h : Track c start n n' k l m) (kind : TokenKind)
    (hkind : continues kind = true) :
  kindOf l = kind ↔ kindOf m = kind
  := by
  rcases h.along with hm | ⟨t, hm⟩
  · have hquiet : c.Quiet := h.live.resolve_left (by simp)
    constructor
    · rintro rfl
      cases hkind
    · rintro rfl
      rw [hquiet _ hm] at hkind
      contradiction
  · rfl

/-- Reading what is left starts with no closing brace too many. -/
theorem balanced (h : Track c start n n' k l m) :
  c.Plain ∨ 0 ≤ excess l
  := h.closed.imp_right fun hs => hs l List.suffix_rfl

variable {α : Type} {g : α → α} {p q : Parse α}

/-- Reading a token of a kind at which parsing cannot go on after an error. -/
theorem expect (h : Track c start n n' k l m) {wanted : TokenKind} {what : Expectation}
    (hw : (!firm.contains wanted) = true)
    (hp : ∀ t l' m', l = t :: l' → t.kind = wanted → Track c start n n' 10 l' m' →
      (c.Plain ∨ l' ≠ []) → Follows c start g p q l' m') :
  Follows c start g (Parse.expect c.finish wanted what >>= fun _ => p)
    (Parse.expect c.finish' wanted what >>= fun _ => q) l m
  := by
  have hw : wanted ∉ firm := by simpa using hw
  by_cases hk : kindOf l = wanted
  · rcases h.along with hm | ⟨t, hm⟩
    · simp [← hk, firm] at hw
    · have ht : t.kind ≠ .semicolon := by
        rw [kindOf_cons] at hk
        rintro hs
        simp [← hk, hs, firm] at hw
      have := hp t _ _ rfl hk (h.tail ht) (h.ready ht)
      unfold Follows at this ⊢
      rwa [bind_ok (expect_ok hk), bind_ok (expect_ok (by exact hk))]
  · apply follows_of_error h.along
    · simp [hk]
    · intro hl
      have hm : kindOf m ≠ wanted := by
        rcases h.along with hm | ⟨t, hm⟩
        · rcases hl with hl | hl
          · contradiction
          · intro hk'
            exact hw (hk' ▸ hl _ hm)
        · exact hk
      simp [hm]

/-- Reading a name. -/
theorem identifier {f f' : String → Parse α} (h : Track c start n n' k l m) {what : Expectation}
    (hp : ∀ t l' m', l = t :: l' → m = t.move c.move :: m' → Track c start n n' 10 l' m' →
      (c.Plain ∨ l' ≠ []) → Follows c start g (f t.text) (f' t.text) l' m') :
  Follows c start g (Parse.identifier c.finish what >>= f)
    (Parse.identifier c.finish' what >>= f') l m
  := by
  by_cases hk : kindOf l = .identifier
  · rcases h.along with hm | ⟨t, hm⟩
    · cases hk
    · have ht : t.kind ≠ .semicolon := by
        rw [kindOf_cons] at hk
        simp [hk]
      have := hp t _ _ rfl rfl (h.tail ht) (h.ready ht)
      unfold Follows at this ⊢
      rwa [bind_ok (identifier_ok hk), bind_ok (identifier_ok (by exact hk))]
  · apply follows_of_error h.along
    · simp [hk]
    · intro hl
      have hm : kindOf m ≠ .identifier := by
        rcases h.along with hm | ⟨t, hm⟩
        · rcases hl with hl | hl
          · contradiction
          · intro hk'
            have := hl _ hm
            simp [hk', firm] at this
        · exact hk
      simp [hm]

/-- Reading a comma if there is one. -/
theorem skipComma {f f' : Bool → Parse α} (h : Track c start n n' k l m)
    (hyes : ∀ t l' m', l = t :: l' → t.kind = .comma → Track c start n n' 10 l' m' →
      (c.Plain ∨ l' ≠ []) → Follows c start g (f true) (f' true) l' m')
    (hno : Follows c start g (f false) (f' false) l m) :
  Follows c start g (Parse.skipComma >>= f) (Parse.skipComma >>= f') l m
  := by
  by_cases hk : kindOf l = .comma
  · rcases h.along with hm | ⟨t, hm⟩
    · cases hk
    · have ht : t.kind ≠ .semicolon := by
        rw [kindOf_cons] at hk
        simp [hk]
      have := hyes t _ _ rfl hk (h.tail ht) (h.ready ht)
      unfold Follows at this ⊢
      rwa [bind_ok (skipComma_yes hk), bind_ok (skipComma_yes (by exact hk))]
  · have hm : kindOf m ≠ .comma := by
      rcases h.along with hm | ⟨t, hm⟩
      · have hquiet : c.Quiet := h.live.resolve_left (by simp)
        intro hk'
        have := hquiet _ hm
        simp [hk', continues] at this
      · exact hk
    unfold Follows at hno ⊢
    rwa [bind_ok (skipComma_no hk), bind_ok (skipComma_no hm)]

end Track

/-- Reading the semicolon behind what has been made. -/
theorem follows_skipSemicolon {α : Type} {c : Change} {start l m : List Token} {g : α → α}
    {a b : α} (h : Along c l m) (hb : b = g a) :
  Follows c start g (skipSemicolon >>= fun _ => pure a) (skipSemicolon >>= fun _ => pure b) l m
  := by
  have : Follows c start g (pure a) (pure b) (dropSemicolon l) (dropSemicolon m) :=
    follows_pure h.dropSemicolon hb
  unfold Follows at this ⊢
  rwa [bind_ok (skipSemicolon_ok l), bind_ok (skipSemicolon_ok m)]

namespace Rule

/-- With `n` and `n'` units of fuel, two runs of a rule follow each other. -/
def Simulated (c : Change) (n n' : Nat) (r : Rule) : Prop :=
  ∀ start k l m, Track c start n n' k l m → Nat.blt r.rank k = true → r.Starts l →
    (r.returns = true ∨ c.Plain ∨ l ≠ []) → (c.Plain ∨ r.closes ≤ excess l) →
    Follows c start (r.moved c.move) (r.run c.finish n) (r.runMoved c.move c.finish' n') l m

/-- What is to be shown of a rule with one more unit of fuel, where a token is left. -/
def SimulatedStep (c : Change) (n n' : Nat) (r : Rule) : Prop :=
  ∀ start t l m, Track c start n n' r.rank (t :: l) (t.move c.move :: m) → r.Starts (t :: l) →
    (c.Plain ∨ r.closes ≤ excess (t :: l)) →
    Follows c start (r.moved c.move) (r.run c.finish (n + 1))
      (r.runMoved c.move c.finish' (n' + 1)) (t :: l) (t.move c.move :: m)

variable {c : Change} {n n' : Nat} {α : Type} {start l m : List Token} {k : Nat} {g : α → α}

/-- Where a rule has read something, the runs are on their way as before. -/
theorem track_after {r : Rule} {l' m' : List Token} (h : Track c start n n' k l m)
    (hk : (Nat.blt 0 r.least || k == 10) = true)
    (hs : Spans c.finish r.least r.closes r.leaves l l') (ha : Along c l' m')
    (hl : r.leaves = true ∨ c.Plain ∨ 0 < excess l')
    (hc : l' ≠ [] ∨ c.Quiet ∨ ¬ Open c.finish start) :
  Track c start n n' 10 l' m'
  where
  along := ha
  suffix := hs.suffix.trans h.suffix
  live := by
    rcases hc with hc | hc | hc
    · exact .inl hc
    · exact .inr hc
    · rcases hl with hl | hp | hexcess
      · by_cases hl' : l' = []
        · rcases h.fit with hp | rfl | hterm
          · exact .inr hp.quiet
          · exact .inr (h.live.resolve_left (by simp))
          · exact absurd ((hs.last hl hl' hterm).suffix h.suffix) hc
        · exact .inl hl'
      · exact .inr hp.quiet
      · left
        rintro rfl
        simp at hexcess
  fit := by
    rcases h.fit with hp | rfl | hterm
    · exact .inl hp
    · exact .inr (.inl (List.suffix_nil.mp hs.suffix))
    · by_cases hl' : l' = []
      · exact .inr (.inl hl')
      · exact .inr (.inr (hterm.suffix hs.suffix hl'))
  closed := h.closed.imp_right fun hs' s hsl => hs' s (hsl.trans hs.suffix)
  fuel := by
    have := h.fuel
    have := hs.least
    simp at hk
    omega
  fuel' := by
    have := h.fuel'
    have := hs.least
    simp at hk
    omega

/-- A rule, and then what becomes of its result. -/
theorem Simulated.bind {r : Rule} (hr : Simulated c n n' r) (h : Track c start n n' k l m)
    (hk : (Nat.blt r.rank k && (Nat.blt 0 r.least || k == 10)
      && (r.leaves && r.closes == 0)) = true) (hs : r.Starts l)
    (hn : r.returns = true ∨ c.Plain ∨ l ≠ []) {f f' : r.Result → Parse α}
    (lost : ∀ a, Ensures (f a) [] (fun _ rest => rest = []) (· = []))
    (hf : ∀ a l' m', Spans c.finish r.least r.closes r.leaves l l' →
      Track c start n n' 10 l' m' → Follows c start g (f a) (f' (r.moved c.move a)) l' m') :
  Follows c start g (r.run c.finish n >>= f) (r.runMoved c.move c.finish' n' >>= f') l m
  := by
  simp only [Bool.and_eq_true, beq_iff_eq] at hk
  obtain ⟨⟨hrank, hleast⟩, hleaves, hcloses⟩ := hk
  have hb : c.Plain ∨ r.closes ≤ excess l := by
    rw [hcloses]
    exact h.closed.imp_right fun hs => hs l List.suffix_rfl
  apply (hr start k l m h hrank hs hn hb).bind lost
  intro a l' m' hrun ha hc
  have hspans := spans_of_ok hs hrun
  exact hf a l' m' hspans (track_after h hleast hspans ha (.inl hleaves) hc)

/-- A rule, and then a value made from its result. -/
theorem Simulated.map {r : Rule} (hr : Simulated c n n' r) (h : Track c start n n' k l m)
    (hk : Nat.blt r.rank k = true) (hs : r.Starts l)
    (hn : r.returns = true ∨ c.Plain ∨ l ≠ []) (hb : c.Plain ∨ r.closes ≤ excess l)
    {f f' : r.Result → α} (hf : ∀ a, f' (r.moved c.move a) = g (f a)) :
  Follows c start g (r.run c.finish n >>= fun a => pure (f a))
    (r.runMoved c.move c.finish' n' >>= fun a => pure (f' a)) l m
  := by
  apply (hr start k l m h hk hs hn hb).bind
  · simp
  · intro a l' m' hrun ha hc
    exact follows_pure ha (hf a)

/-- Both runs come to the same rule, for the first token is there in both. -/
theorem simulated_statement (ih : ∀ r, Simulated c n n' r) :
  SimulatedStep c n n' statement
  := by
  intro start t l m h _ hb
  show Follows c start _ (Parse.statement c.finish (n + 1)) (Parse.statement c.finish' (n' + 1))
    _ _
  have call (r : Rule) (hr : Nat.blt r.rank 7 = true) (hs : r.Starts (t :: l))
      (hc : r.closes = 0) :
    Follows c start (r.moved c.move) (r.run c.finish n) (r.runMoved c.move c.finish' n') (t :: l)
      (t.move c.move :: m)
    := ih r start 7 _ _ h hr hs (.inr (.inr (by rintro ⟨⟩))) (by rwa [hc])
  simp only [Parse.statement, follows_kind, kindOf_cons, Token.move_kind]
  split
  next ht => exact call letStatement rfl ht rfl
  next ht => exact call returnStatement rfl ht rfl
  next ht => exact call useStatement rfl ht rfl
  next ht =>
    simp only [follows_here]
    apply (ih block).map h rfl trivial (.inr (.inr (by rintro ⟨⟩))) hb
    simp [Stmt.map]
  next ht =>
    simp only [follows_secondKind, List.tail_cons]
    have hpeek := h.peek (by simp [ht]) .identifier rfl
    by_cases hl : kindOf l = .identifier
    · simp only [hl, hpeek.mp hl, ↓reduceIte]
      exact call funcStatement rfl ⟨ht, hl⟩ rfl
    · simp only [hl, mt hpeek.mpr hl, ↓reduceIte]
      exact call exprStatement rfl trivial rfl
  next => exact call exprStatement rfl trivial rfl

/-- Both runs read an expression and the semicolon behind it. -/
theorem simulated_exprStatement (ih : ∀ r, Simulated c n n' r) :
  SimulatedStep c n n' exprStatement
  := by
  intro start t l m h _ _
  show Follows c start _ (Parse.exprStatement c.finish (n + 1))
    (Parse.exprStatement c.finish' (n' + 1)) _ _
  simp only [Parse.exprStatement, follows_here]
  apply (ih (binary _)).bind h rfl trivial (.inr (.inr (by rintro ⟨⟩)))
  · simp
  · intro e l' m' _ h
    apply follows_skipSemicolon h.along
    simp [Stmt.map]

/-- Both runs read a name and a value, and the name is given to the moved value. -/
theorem simulated_letStatement (ih : ∀ r, Simulated c n n' r) :
  SimulatedStep c n n' letStatement
  := by
  intro start t l m h hs _
  show Follows c start _ (Parse.letStatement c.finish (n + 1))
    (Parse.letStatement c.finish' (n' + 1)) _ _
  simp only [Parse.letStatement, follows_here, follows_advance, List.tail_cons]
  have ht : t.kind ≠ .semicolon := by
    have : t.kind = .letWord := hs
    simp [this]
  apply (h.tail ht).identifier
  rintro u l m rfl - h -
  apply h.expect rfl
  rintro v l m rfl - h hn
  apply (ih (binary _)).bind h rfl trivial (.inr hn)
  · simp
  · intro value l m _ h
    apply follows_skipSemicolon h.along
    simp [Stmt.map]

/-- Both runs tell alike whether anything is handed back. -/
theorem simulated_returnStatement (ih : ∀ r, Simulated c n n' r) :
  SimulatedStep c n n' returnStatement
  := by
  intro start t l m h hs _
  show Follows c start _ (Parse.returnStatement c.finish (n + 1))
    (Parse.returnStatement c.finish' (n' + 1)) _ _
  have ht : t.kind ≠ .semicolon := by
    have : t.kind = .returnWord := hs
    simp [this]
  have hnone (l m : List Token) (ha : Along c l m) :
    Follows c start (Stmt.map c.move id)
      (skipSemicolon >>= fun _ => pure (.ret t.position none))
      (skipSemicolon >>= fun _ => pure (.ret (c.move t.position) none)) l m
    := follows_skipSemicolon ha (by simp [Stmt.map])
  have h' := h.tail ht
  simp only [Parse.returnStatement, follows_here, follows_advance, follows_kind, List.tail_cons,
    hereOf_cons, Token.move_position]
  rcases h'.along with hm | ⟨u, hm⟩
  · -- Both the end and a semicolon stand for a missing value.
    have hp : c.Plain := (h.ready ht).resolve_right (by simp)
    rcases hp.kindOf hm with hk | hk
    · simp only [hk, kindOf_nil]
      exact hnone _ _ h'.along
    · simp only [hk, kindOf_nil]
      exact hnone _ _ h'.along
  · simp only [kindOf_cons, Token.move_kind]
    split
    · exact hnone _ _ h'.along
    · exact hnone _ _ h'.along
    · exact hnone _ _ h'.along
    · apply (ih (binary _)).bind h' rfl trivial (.inr (.inr (by rintro ⟨⟩)))
      · simp
      · intro e l m _ h
        apply follows_skipSemicolon h.along
        simp [Stmt.map]

/-- Both runs read a word or a text. -/
theorem simulated_useStatement :
  SimulatedStep c n n' useStatement
  := by
  intro start t l m h hs _
  show Follows c start _ (Parse.useStatement c.finish) (Parse.useStatement c.finish') _ _
  have ht : t.kind ≠ .semicolon := by
    have : t.kind = .useWord := hs
    simp [this]
  have h' := h.tail ht
  simp only [Parse.useStatement, follows_here, follows_advance, follows_kind, List.tail_cons,
    hereOf_cons, Token.move_position]
  rcases h'.along with hm | ⟨u, hm⟩
  · have hp : c.Plain := (h.ready ht).resolve_right (by simp)
    rcases hp.kindOf hm with hk | hk
    · simp only [hk, kindOf_nil]
      apply follows_of_error h'.along
      · simp
      · simp
    · simp only [hk, kindOf_nil]
      apply follows_of_error h'.along
      · simp
      · simp
  · simp only [kindOf_cons, Token.move_kind]
    split
    · simp only [follows_word, follows_advance, wordOf_cons, List.tail_cons, Token.move_text]
      apply follows_skipSemicolon hm
      simp [Stmt.map]
    · simp only [follows_word, follows_advance, wordOf_cons, List.tail_cons, Token.move_text]
      apply follows_skipSemicolon hm
      simp [Stmt.map]
    · apply follows_of_error h'.along
      · simp
      · simp

/-- Both runs read a function and give it the same name. -/
theorem simulated_funcStatement (ih : ∀ r, Simulated c n n' r) :
  SimulatedStep c n n' funcStatement
  := by
  intro start t l m h hs _
  show Follows c start _ (Parse.funcStatement c.finish (n + 1))
    (Parse.funcStatement c.finish' (n' + 1)) _ _
  obtain ⟨ht, hname⟩ := hs
  rw [kindOf_cons] at ht
  have h' := h.tail (by simp [ht])
  simp only [Parse.funcStatement, follows_here, follows_advance, follows_word, List.tail_cons]
  rcases h'.along with hm | ⟨u, hm⟩
  · cases hname
  · simp only [wordOf_cons, Token.move_text]
    apply (ih (function _)).bind h' rfl trivial (.inr (.inr (by rintro ⟨⟩)))
    · simp
    · intro value l m _ h
      apply follows_skipSemicolon h.along
      simp [Stmt.map]

/-- Both runs tell alike whether a name stands in front of the parameters. -/
theorem simulated_function (pos : Position) (ih : ∀ r, Simulated c n n' r) :
  SimulatedStep c n n' (function pos)
  := by
  intro start t l m h _ _
  show Follows c start _ (Parse.function c.finish (n + 1) pos)
    (Parse.function c.finish' (n' + 1) (c.move pos)) _ _
  have key {k : Nat} {l m : List Token} (name : Option String) (h : Track c start n n' k l m) :
    Follows c start (Expr.map c.move id)
      (do
        expect c.finish .leftParen .paramsStart
        let names ← Parse.params c.finish n
        expect c.finish .rightParen .paramsEnd
        return .func pos name names (← Parse.block c.finish n))
      (do
        expect c.finish' .leftParen .paramsStart
        let names ← Parse.params c.finish' n'
        expect c.finish' .rightParen .paramsEnd
        return .func (c.move pos) name names (← Parse.block c.finish' n')) l m
    := by
    apply h.expect rfl
    rintro u l m rfl - h hn
    apply (ih params).bind h rfl trivial (.inr hn)
    · simp
    · intro names l m _ h
      apply h.expect rfl
      rintro u l m rfl - h hn
      apply (ih block).map h rfl trivial (.inr hn) h.balanced
      simp [Expr.map]
  simp only [Parse.function, follows_kind, kindOf_cons, Token.move_kind]
  by_cases ht : t.kind = .identifier
  · simp only [ht, ↓reduceIte, map_eq_pure_bind, bind_assoc, pure_bind]
    apply h.identifier
    rintro u l m hl - h hn
    exact key (some u.text) h
  · simp only [ht, ↓reduceIte, pure_bind]
    exact key none h

/-- Both runs read a brace, where the statements behind it end in one. -/
theorem simulated_block (ih : ∀ r, Simulated c n n' r) :
  SimulatedStep c n n' block
  := by
  intro start t l m h _ _
  show Follows c start _ (Parse.block c.finish (n + 1)) (Parse.block c.finish' (n' + 1)) _ _
  simp only [Parse.block, follows_here]
  apply h.expect rfl
  rintro u l m hl hu h' hn
  obtain ⟨rfl, rfl⟩ := List.cons.inj hl
  apply ih (blockRest _) start 10 _ _ h' rfl trivial (.inr hn)
  apply h.balanced.imp_right
  intro hexcess
  simp only [excess_cons, hu, braces] at hexcess
  simp only [closes]
  omega

/-- Both runs meet the brace that closes the block, or the same statement. -/
theorem simulated_blockRest (pos : Position) (ih : ∀ r, Simulated c n n' r) :
  SimulatedStep c n n' (blockRest pos)
  := by
  intro start t l m h _ hb
  show Follows c start _ (Parse.blockRest c.finish (n + 1) pos)
    (Parse.blockRest c.finish' (n' + 1) (c.move pos)) _ _
  have ha := (along_cons.mp h.along).2
  simp only [Parse.blockRest, follows_kind, kindOf_cons, Token.move_kind]
  split
  · apply follows_pure ha
    rfl
  · exact follows_throw h.along
  next ht =>
    simp only [follows_advance, List.tail_cons]
    have hb' : c.Plain ∨ 1 ≤ excess l := by
      apply hb.imp_right
      intro hexcess
      have hexcess : 1 ≤ excess (t :: l) := hexcess
      simpa [ht, braces] using hexcess
    have hl : c.Plain ∨ l ≠ [] := by
      apply hb'.imp_right
      rintro hexcess rfl
      simp at hexcess
    exact ih (blockRest pos) start 10 _ _ (h.step hl) rfl trivial (.inr hl) hb'
  next =>
    have hs := ih statement start 8 _ _ h rfl trivial (.inr (.inr (by rintro ⟨⟩))) h.balanced
    apply hs.bind
    · intro s
      simp only [ensures_bind, ensures_pure]
      exact ensures_of_nil (r := blockRest pos) trivial
    · intro s l' m' hrun ha hc
      have hspans := spans_of_ok (r := statement) trivial hrun
      have hb' : c.Plain ∨ 1 ≤ excess l' := by
        apply hb.imp_right
        intro hexcess
        have : excess (t :: l) = excess l' + 0 := hspans.excess_eq
        simp only [closes] at hexcess
        omega
      have h' := track_after h rfl hspans ha (.inr hb') hc
      have hl' : c.Plain ∨ l' ≠ [] := by
        apply hb'.imp_right
        rintro hexcess rfl
        simp at hexcess
      apply (ih (blockRest pos)).map h' rfl trivial (.inr hl') hb'
      simp [Stmt.mapAll]

/-- Both runs find a parameter among the same ones or not. -/
theorem simulated_paramNames (found : List String) (ih : ∀ r, Simulated c n n' r) :
  SimulatedStep c n n' (paramNames found)
  := by
  intro start t l m h _ _
  show Follows c start _ (Parse.paramNames c.finish (n + 1) found)
    (Parse.paramNames c.finish' (n' + 1) found) _ _
  simp only [Parse.paramNames, follows_here]
  apply h.identifier
  rintro u l m - - h hn
  split
  · exact follows_throw h.along
  · apply h.skipComma
    · rintro v l m - - h hn
      simp only [↓reduceIte]
      exact ih (paramNames _) start 10 _ _ h rfl trivial (.inr hn) h.balanced
    · exact follows_pure h.along rfl

/-- Both runs read an operand and go on with what they have made of it. -/
theorem simulated_binary (level : Nat) (ih : ∀ r, Simulated c n n' r) :
  SimulatedStep c n n' (binary level)
  := by
  intro start t l m h _ _
  show Follows c start _ (Parse.binary c.finish (n + 1) level)
    (Parse.binary c.finish' (n' + 1) level) _ _
  simp only [Parse.binary]
  apply (ih unary).bind h rfl trivial (.inr (.inr (by rintro ⟨⟩)))
  · intro left
    exact ensures_of_nil (r := binaryRest level left) trivial
  · intro left l m _ h
    exact ih (binaryRest level left) start 10 _ _ h rfl trivial (.inl rfl) h.balanced

/-- Both runs meet the same operator, or none that goes on with the operand. -/
theorem simulated_binaryRest (level : Nat) (left : Expr) (ih : ∀ r, Simulated c n n' r) :
  SimulatedStep c n n' (binaryRest level left)
  := by
  intro start t l m h _ _
  show Follows c start _ (Parse.binaryRest c.finish (n + 1) level left)
    (Parse.binaryRest c.finish' (n' + 1) level (left.map c.move id)) _ _
  simp only [Parse.binaryRest, follows_kind, kindOf_cons, Token.move_kind]
  have done : Follows c start (Expr.map c.move id) (pure left) (pure (left.map c.move id))
      (t :: l) (t.move c.move :: m)
    := follows_pure h.along rfl
  by_cases ht : t.kind = .assign
  · simp only [ht, ↓reduceIte]
    split
    · exact done
    · exact ih (assignment level left) start 2 _ _ h rfl ht (.inr (.inr (by rintro ⟨⟩))) h.balanced
  · simp only [ht, ↓reduceIte]
    cases hop : BinaryOp.ofToken? t.kind with
    | none => exact done
    | some op =>
        simp only
        split
        · exact done
        · simp only [follows_here, follows_advance, List.tail_cons]
          have hsemi : t.kind ≠ .semicolon := by
            rintro hsemi
            simp [hsemi, BinaryOp.ofToken?] at hop
          have h' := h.tail hsemi
          apply (ih (binary _)).bind h' rfl trivial (.inr (h.ready hsemi))
          · intro right
            exact ensures_of_nil (r := binaryRest level _) trivial
          · intro right l m _ h
            exact ih (binaryRest level (.binary t.position op left right)) start 10 _ _ h rfl
              trivial (.inl rfl) h.balanced

/-- Both runs assign to the same name or report that none stands there. -/
theorem simulated_assignment (level : Nat) (left : Expr) (ih : ∀ r, Simulated c n n' r) :
  SimulatedStep c n n' (assignment level left)
  := by
  intro start t l m h hs _
  show Follows c start _ (Parse.assignment c.finish (n + 1) level left)
    (Parse.assignment c.finish' (n' + 1) level (left.map c.move id)) _ _
  have ht : t.kind ≠ .semicolon := by
    have : t.kind = .assign := hs
    simp [this]
  simp only [Parse.assignment, follows_here, follows_advance, List.tail_cons]
  cases left with
  | name pos x =>
      simp only [Expr.map]
      apply (ih (binary _)).bind (h.tail ht) rfl trivial (.inr (h.ready ht))
      · intro value
        exact ensures_of_nil (r := binaryRest level _) trivial
      · intro value l m _ h
        exact ih (binaryRest level (.assign pos x value)) start 10 _ _ h rfl trivial (.inl rfl)
          h.balanced
  | cond pos test yes no =>
      cases no with
      | none => exact follows_throw (h.tail ht).along
      | some no => exact follows_throw (h.tail ht).along
  | _ => exact follows_throw (h.tail ht).along

/-- Both runs meet the same prefix or none. -/
theorem simulated_unary (ih : ∀ r, Simulated c n n' r) :
  SimulatedStep c n n' unary
  := by
  intro start t l m h _ _
  show Follows c start _ (Parse.unary c.finish (n + 1)) (Parse.unary c.finish' (n' + 1)) _ _
  simp only [Parse.unary, follows_here, follows_kind, kindOf_cons, Token.move_kind, hereOf_cons,
    Token.move_position]
  have hsemi : UnaryOp.ofToken? t.kind ≠ none → t.kind ≠ .semicolon := by
    rintro hop hsemi
    rw [hsemi] at hop
    exact hop rfl
  split
  next => exact ih suffixed start 4 _ _ h rfl trivial (.inr (.inr (by rintro ⟨⟩))) h.balanced
  next hop =>
    have ht := hsemi (by simp [hop])
    simp only [follows_advance, List.tail_cons]
    apply (ih (binary _)).map (h.tail ht) rfl trivial (.inr (h.ready ht)) (h.tail ht).balanced
    simp [Expr.map]
  next hop =>
    have ht := hsemi (by simp [hop])
    simp only [follows_advance, follows_here, List.tail_cons]
    apply (h.tail ht).identifier
    rintro u l m rfl rfl h -
    exact follows_pure h.along rfl
  next op _ _ hop =>
    have ht := hsemi (by simp [hop])
    simp only [follows_advance, List.tail_cons]
    apply (ih unary).map (h.tail ht) rfl trivial (.inr (h.ready ht)) (h.tail ht).balanced
    simp [Expr.map]

/-- Both runs read an operand and go on with what they have made of it. -/
theorem simulated_suffixed (ih : ∀ r, Simulated c n n' r) :
  SimulatedStep c n n' suffixed
  := by
  intro start t l m h _ _
  show Follows c start _ (Parse.suffixed c.finish (n + 1)) (Parse.suffixed c.finish' (n' + 1))
    _ _
  simp only [Parse.suffixed]
  apply (ih primary).bind h rfl trivial (.inr (.inr (by rintro ⟨⟩)))
  · intro e
    exact ensures_of_nil (r := suffixes e) trivial
  · intro e l m _ h
    exact ih (suffixes e) start 10 _ _ h rfl trivial (.inl rfl) h.balanced

/-- Both runs meet a parenthesis, a bracket, or neither. -/
theorem simulated_suffixes (e : Expr) (ih : ∀ r, Simulated c n n' r) :
  SimulatedStep c n n' (suffixes e)
  := by
  intro start t l m h _ _
  show Follows c start _ (Parse.suffixes c.finish (n + 1) e)
    (Parse.suffixes c.finish' (n' + 1) (e.map c.move id)) _ _
  simp only [Parse.suffixes, follows_here, follows_kind, kindOf_cons, Token.move_kind,
    hereOf_cons, Token.move_position]
  split
  next hk =>
    have ht : t.kind ≠ .semicolon := by simp [hk]
    simp only [follows_advance, List.tail_cons]
    apply (ih (expressions .rightParen)).bind (h.tail ht) rfl (.inl rfl) (.inr (h.ready ht))
    · simp
    · intro args l m _ h
      apply h.expect rfl
      rintro u l m rfl - h hn
      exact ih (suffixes (.call t.position e args)) start 10 _ _ h rfl trivial (.inl rfl)
        h.balanced
  next hk =>
    have ht : t.kind ≠ .semicolon := by simp [hk]
    simp only [follows_advance, List.tail_cons]
    apply (ih (binary _)).bind (h.tail ht) rfl trivial (.inr (h.ready ht))
    · simp
    · intro i l m _ h
      apply h.expect rfl
      rintro u l m rfl - h hn
      exact ih (suffixes (.index t.position e i)) start 10 _ _ h rfl trivial (.inl rfl)
        h.balanced
  next => exact follows_pure h.along rfl

/-- Both runs come to the end of the list or to an expression. -/
theorem simulated_expressions (stop : TokenKind) (ih : ∀ r, Simulated c n n' r) :
  SimulatedStep c n n' (expressions stop)
  := by
  intro start t l m h hs _
  show Follows c start _ (Parse.expressions c.finish (n + 1) stop)
    (Parse.expressions c.finish' (n' + 1) stop) _ _
  simp only [Parse.expressions, follows_kind, kindOf_cons, Token.move_kind]
  by_cases ht : t.kind = stop
  · simp only [ht, ↓reduceIte]
    exact follows_pure h.along rfl
  · simp only [ht, ↓reduceIte]
    apply (ih (binary _)).bind h rfl trivial (.inr (.inr (by rintro ⟨⟩)))
    · simp
    · intro e l m _ h
      apply h.skipComma
      · rintro v l m - - h hn
        simp only [↓reduceIte]
        apply (ih (expressions stop)).map h rfl hs (.inr hn) h.balanced
        simp [Expr.mapAll]
      · exact follows_pure h.along rfl

/-- Both runs come to the end of the hash or to an entry. -/
theorem simulated_hashEntries (ih : ∀ r, Simulated c n n' r) :
  SimulatedStep c n n' hashEntries
  := by
  intro start t l m h _ _
  show Follows c start _ (Parse.hashEntries c.finish (n + 1))
    (Parse.hashEntries c.finish' (n' + 1)) _ _
  simp only [Parse.hashEntries, follows_kind, kindOf_cons, Token.move_kind]
  by_cases ht : t.kind = .rightBrace
  · simp only [ht, ↓reduceIte]
    exact follows_pure h.along rfl
  · simp only [ht, ↓reduceIte]
    apply (ih hashKey).bind h rfl trivial (.inr (.inr (by rintro ⟨⟩)))
    · simp
    · intro key l m _ h
      apply h.expect rfl
      rintro u l m rfl - h hn
      apply (ih (binary _)).bind h rfl trivial (.inr hn)
      · simp
      · intro value l m _ h
        apply h.skipComma
        · rintro v l m - - h hn
          simp only [↓reduceIte]
          apply (ih hashEntries).map h rfl trivial (.inr hn) h.balanced
          simp [Expr.mapEntries]
        · exact follows_pure h.along rfl

/-- Both runs tell alike whether a colon stands behind a name. -/
theorem simulated_hashKey (ih : ∀ r, Simulated c n n' r) :
  SimulatedStep c n n' hashKey
  := by
  intro start t l m h _ _
  show Follows c start _ (Parse.hashKey c.finish (n + 1)) (Parse.hashKey c.finish' (n' + 1)) _ _
  simp only [Parse.hashKey, follows_kind, follows_secondKind, kindOf_cons, Token.move_kind,
    List.tail_cons]
  have other :
    Follows c start (Expr.map c.move id) (Parse.binary c.finish n assignLevel)
      (Parse.binary c.finish' n' assignLevel) (t :: l) (t.move c.move :: m)
    := ih (binary assignLevel) start 6 _ _ h rfl trivial (.inr (.inr (by rintro ⟨⟩))) h.balanced
  by_cases ht : t.kind = .identifier
  · have hpeek := h.peek (by simp [ht]) .colon rfl
    by_cases hl : kindOf l = .colon
    · simp only [ht, hl, hpeek.mp hl, and_self, ↓reduceIte, follows_here, follows_word,
        follows_advance]
      exact follows_pure (along_cons.mp h.along).2 rfl
    · simp only [hl, mt hpeek.mpr hl, and_false, ↓reduceIte]
      exact other
  · simp only [ht, false_and, ↓reduceIte]
    exact other

/-- Both runs read an expression between parentheses. -/
theorem simulated_condition (keyword : String) (ih : ∀ r, Simulated c n n' r) :
  SimulatedStep c n n' (condition keyword)
  := by
  intro start t l m h _ _
  show Follows c start _ (Parse.condition c.finish (n + 1) keyword)
    (Parse.condition c.finish' (n' + 1) keyword) _ _
  simp only [Parse.condition]
  apply h.expect rfl
  rintro u l m - - h hn
  apply (ih (binary _)).bind h rfl trivial (.inr hn)
  · simp
  · intro test l m _ h
    apply h.expect rfl
    rintro u l m rfl - h hn
    exact follows_pure h.along rfl

/-- Both runs tell alike whether there is a second branch. -/
theorem simulated_conditional (ih : ∀ r, Simulated c n n' r) :
  SimulatedStep c n n' conditional
  := by
  intro start t l m h hs _
  show Follows c start _ (Parse.conditional c.finish (n + 1))
    (Parse.conditional c.finish' (n' + 1)) _ _
  have ht : t.kind ≠ .semicolon := by
    have : t.kind = .ifWord := hs
    simp [this]
  simp only [Parse.conditional, follows_here, follows_advance, List.tail_cons, hereOf_cons,
    Token.move_position]
  apply (ih (condition _)).bind (h.tail ht) rfl trivial (.inr (h.ready ht))
  · intro test
    rw [ensures_bind]
    apply (ensures_of_nil (r := block) trivial).mono
    · rintro yes rest rfl
      simp
    · simp
  intro test l m _ h
  apply (ih block).bind h rfl trivial (.inl rfl)
  · simp
  intro yes l m _ h
  simp only [follows_kind]
  have helse := h.continuing .elseWord rfl
  by_cases hl : kindOf l = .elseWord
  · simp only [hl, helse.mp hl, ↓reduceIte, follows_advance, follows_kind]
    rcases h.along with hm | @⟨u, l, m, hm⟩
    · cases hl
    · rw [kindOf_cons] at hl
      have hu : u.kind ≠ .semicolon := by simp [hl]
      have h' := h.tail hu
      have hif := h.peek hu .ifWord rfl
      simp only [List.tail_cons]
      by_cases hl' : kindOf l = .ifWord
      · simp only [hl', hif.mp hl', ↓reduceIte, follows_here]
        apply (ih conditional).map h' rfl hl' (.inr (h.ready hu)) h'.balanced
        rcases h'.along with hm | ⟨v, hm⟩
        · cases hl'
        · simp [Expr.map, Stmt.mapAll, Stmt.map]
      · simp only [hl', mt hif.mpr hl', ↓reduceIte]
        apply (ih block).map h' rfl trivial (.inl rfl) h'.balanced
        simp [Expr.map]
  · simp only [hl, mt helse.mpr hl, ↓reduceIte]
    exact follows_pure h.along rfl

/-- Both runs tell alike whether the decorator has arguments. -/
theorem simulated_decorated (ih : ∀ r, Simulated c n n' r) :
  SimulatedStep c n n' decorated
  := by
  intro start t l m h hs _
  show Follows c start _ (Parse.decorated c.finish (n + 1))
    (Parse.decorated c.finish' (n' + 1)) _ _
  have ht : t.kind ≠ .semicolon := by
    have : t.kind = .decorator := hs
    simp [this]
  simp only [Parse.decorated, follows_here, follows_advance, List.tail_cons]
  apply (h.tail ht).identifier
  rintro u l m rfl rfl h hn
  simp only [follows_here, follows_kind]
  have hparen := h.continuing .leftParen rfl
  by_cases hl : kindOf l = .leftParen
  · simp only [hl, hparen.mp hl, ↓reduceIte, follows_advance]
    rcases h.along with hm | ⟨v, hm⟩
    · cases hl
    · rw [kindOf_cons] at hl
      have hv : v.kind ≠ .semicolon := by simp [hl]
      simp only [List.tail_cons]
      apply (ih (expressions .rightParen)).bind (h.tail hv) rfl (.inl rfl) (.inr (h.ready hv))
      · simp
      · intro args l m _ h
        apply h.expect rfl
        rintro w l m rfl - h hn
        apply (ih declaration).map h rfl trivial (.inr hn) h.balanced
        simp [Expr.map]
  · simp only [hl, mt hparen.mpr hl, ↓reduceIte]
    apply (ih declaration).map h rfl trivial (.inr hn) h.balanced
    simp [Expr.map]

/-- Both runs come to the same kind of declaration. -/
theorem simulated_declaration (ih : ∀ r, Simulated c n n' r) :
  SimulatedStep c n n' declaration
  := by
  intro start t l m h _ _
  show Follows c start _ (Parse.declaration c.finish (n + 1))
    (Parse.declaration c.finish' (n' + 1)) _ _
  simp only [Parse.declaration, follows_kind, kindOf_cons, Token.move_kind]
  split
  next ht => exact ih letStatement start 2 _ _ h rfl ht (.inr (.inr (by rintro ⟨⟩))) h.balanced
  next ht =>
    simp only [follows_secondKind, List.tail_cons]
    have hpeek := h.peek (by simp [ht]) .identifier rfl
    by_cases hl : kindOf l = .identifier
    · simp only [hl, hpeek.mp hl, ↓reduceIte]
      exact ih funcStatement start 2 _ _ h rfl ⟨ht, hl⟩ (.inr (.inr (by rintro ⟨⟩))) h.balanced
    · simp only [hl, mt hpeek.mpr hl, ↓reduceIte]
      exact follows_fail h.along
  next ht =>
    simp only [follows_here]
    apply (ih decorated).map h rfl ht (.inr (.inr (by rintro ⟨⟩))) h.balanced
    simp [Stmt.map]
  next => exact follows_fail h.along

/-- Both runs come to the same kind of operand. -/
theorem simulated_primary (ih : ∀ r, Simulated c n n' r) :
  SimulatedStep c n n' primary
  := by
  intro start t l m h _ _
  show Follows c start _ (Parse.primary c.finish (n + 1)) (Parse.primary c.finish' (n' + 1)) _ _
  have ha := (along_cons.mp h.along).2
  simp only [Parse.primary, follows_here, follows_kind, kindOf_cons, Token.move_kind,
    hereOf_cons, Token.move_position]
  split
  · simp only [follows_word, follows_advance]
    exact follows_pure ha rfl
  · simp only [follows_word, follows_advance]
    exact follows_pure ha rfl
  · simp only [follows_advance]
    exact follows_pure ha rfl
  · simp only [follows_advance]
    exact follows_pure ha rfl
  · simp only [follows_advance]
    exact follows_pure ha rfl
  · simp only [follows_word, follows_advance]
    exact follows_pure ha rfl
  next hk =>
    have ht : t.kind ≠ .semicolon := by simp [hk]
    simp only [follows_advance, List.tail_cons]
    apply (ih (binary _)).bind (h.tail ht) rfl trivial (.inr (h.ready ht))
    · simp
    · intro e l m _ h
      apply h.expect rfl
      rintro u l m rfl - h hn
      exact follows_pure h.along rfl
  next hk =>
    have ht : t.kind ≠ .semicolon := by simp [hk]
    simp only [follows_advance, List.tail_cons]
    apply (ih (expressions .rightBracket)).bind (h.tail ht) rfl (.inr rfl) (.inr (h.ready ht))
    · simp
    · intro es l m _ h
      apply h.expect rfl
      rintro u l m rfl - h hn
      apply follows_pure h.along
      simp [Expr.map]
  next hk =>
    have ht : t.kind ≠ .semicolon := by simp [hk]
    simp only [follows_advance, List.tail_cons]
    apply (ih hashEntries).bind (h.tail ht) rfl trivial (.inr (h.ready ht))
    · simp
    · intro entries l m _ h
      apply h.expect rfl
      rintro u l m rfl - h hn
      apply follows_pure h.along
      simp [Expr.map]
  -- A conditional reads its keyword itself, so nothing has been read in front of it.
  next hk => exact ih conditional start 2 _ _ h rfl hk (.inr (.inr (by rintro ⟨⟩))) h.balanced
  next hk =>
    have ht : t.kind ≠ .semicolon := by simp [hk]
    simp only [follows_advance, List.tail_cons]
    apply (ih (condition _)).bind (h.tail ht) rfl trivial (.inr (h.ready ht))
    · intro test
      simp only [ensures_bind, ensures_pure]
      exact ensures_of_nil (r := block) trivial
    · intro test l m _ h
      apply (ih block).map h rfl trivial (.inl rfl) h.balanced
      simp [Expr.map]
  next hk =>
    have ht : t.kind ≠ .semicolon := by simp [hk]
    simp only [follows_advance, List.tail_cons]
    exact ih (function t.position) start 10 _ _ (h.tail ht) rfl trivial (.inr (h.ready ht))
      (h.tail ht).balanced
  next hk => exact ih decorated start 2 _ _ h rfl hk (.inr (.inr (by rintro ⟨⟩))) h.balanced
  next =>
    apply follows_of_error h.along
    · simp
    · simp

/-- Both runs find no parameters, or the same ones. -/
theorem simulated_params (h : SimulatedStep c n n' (paramNames [])) :
  SimulatedStep c n n' params
  := by
  intro start t l m ht hs hb
  show Follows c start _ (Parse.params c.finish (n + 1)) (Parse.params c.finish' (n' + 1)) _ _
  simp only [Parse.params, follows_kind, kindOf_cons, Token.move_kind]
  by_cases hk : t.kind = .rightParen
  · simp only [hk, ↓reduceIte]
    exact follows_pure ht.along rfl
  · simp only [hk, ↓reduceIte]
    exact h start t l m ht trivial hb

/-- Whether a rule fails where there is nothing to read. -/
def needs : Rule → Bool
  | blockRest _ | suffixes _ | binaryRest _ _ => false
  | _ => true

/-- At the end and at a semicolon stands no token of another kind. -/
theorem kindOf_ne_of_stuck (hm : kindOf m = .eof ∨ kindOf m = .semicolon) (kind : TokenKind)
    (hkind : (!List.contains [.eof, .semicolon] kind) = true) :
  kindOf m ≠ kind
  := by
  rintro rfl
  rcases hm with hm | hm
  · simp [hm] at hkind
  · simp [hm] at hkind

/-- At the end and at a semicolon stands no parameter. -/
theorem stuck_paramNames (hm : kindOf m = .eof ∨ kindOf m = .semicolon) (finish : Position)
    (n : Nat) (found : List String) :
  Ensures (Parse.paramNames finish n found) m (fun _ _ => False) (· = m)
  := by
  cases n with
  | zero => simp [Parse.paramNames]
  | succ n => simp [Parse.paramNames, kindOf_ne_of_stuck hm]

/-- At the end and at a semicolon, there is nothing to read. -/
theorem stuck {finish : Position} (hm : kindOf m = .eof ∨ kindOf m = .semicolon) (n : Nat)
    (r : Rule) (hr : r.needs = true) (hs : r.Starts m) :
  Ensures (r.run finish n) m (fun _ _ => False) (· = m)
  := by
  have other := kindOf_ne_of_stuck hm
  induction n generalizing r with
  | zero =>
      by_cases hp : r = params
      · subst hp
        show Ensures (Parse.params finish 0) m _ _
        simpa [Parse.params, other] using stuck_paramNames hm finish 0 []
      · by_cases hu : r = useStatement
        · subst hu
          exact absurd hs (other _ rfl)
        · rw [run_zero finish r hp hu, ensures_fail]
  | succ n ih =>
      cases r with
      -- Where the end or a semicolon stands, none of the keywords does.
      | letStatement => exact absurd hs (other _ rfl)
      | returnStatement => exact absurd hs (other _ rfl)
      | useStatement => exact absurd hs (other _ rfl)
      | funcStatement => exact absurd hs.1 (other _ rfl)
      | assignment level left => exact absurd hs (other _ rfl)
      | conditional => exact absurd hs (other _ rfl)
      | decorated => exact absurd hs (other _ rfl)
      | blockRest pos => cases hr
      | suffixes e => cases hr
      | binaryRest level left => cases hr
      | statement =>
          have := ih exprStatement rfl trivial
          show Ensures (Parse.statement finish (n + 1)) m _ _
          rcases hm with hm | hm
          all_goals
            simp only [Parse.statement, ensures_bind, ensures_kind, hm]
            exact this
      | exprStatement =>
          show Ensures (Parse.exprStatement finish (n + 1)) m _ _
          simp only [Parse.exprStatement, ensures_bind, ensures_here]
          exact (ih (binary assignLevel) rfl trivial).mono (by simp) (by simp)
      | function pos =>
          show Ensures (Parse.function finish (n + 1) pos) m _ _
          simp [Parse.function, other]
      | params =>
          show Ensures (Parse.params finish (n + 1)) m _ _
          simpa [Parse.params, other] using stuck_paramNames hm finish (n + 1) []
      | paramNames found => exact stuck_paramNames hm finish (n + 1) found
      | block =>
          show Ensures (Parse.block finish (n + 1)) m _ _
          simp [Parse.block, other]
      | binary level =>
          show Ensures (Parse.binary finish (n + 1) level) m _ _
          simp only [Parse.binary, ensures_bind]
          exact (ih unary rfl trivial).mono (by simp) (by simp)
      | unary =>
          have := ih suffixed rfl trivial
          show Ensures (Parse.unary finish (n + 1)) m _ _
          rcases hm with hm | hm
          all_goals
            simp only [Parse.unary, ensures_bind, ensures_here, ensures_kind, hm,
              UnaryOp.ofToken?]
            exact this
      | suffixed =>
          show Ensures (Parse.suffixed finish (n + 1)) m _ _
          simp only [Parse.suffixed, ensures_bind]
          exact (ih primary rfl trivial).mono (by simp) (by simp)
      | expressions stop =>
          have hstop : kindOf m ≠ stop := by
            rcases hs with rfl | rfl
            · exact other _ rfl
            · exact other _ rfl
          show Ensures (Parse.expressions finish (n + 1) stop) m _ _
          simp only [Parse.expressions, ensures_bind, ensures_kind, hstop, ↓reduceIte]
          exact (ih (binary assignLevel) rfl trivial).mono (by simp) (by simp)
      | primary =>
          show Ensures (Parse.primary finish (n + 1)) m _ _
          rcases hm with hm | hm
          all_goals
            simp only [Parse.primary, ensures_bind, ensures_here, ensures_kind, hm,
              ensures_noExpression]
      | hashEntries =>
          show Ensures (Parse.hashEntries finish (n + 1)) m _ _
          simp only [Parse.hashEntries, ensures_bind, ensures_kind, other .rightBrace rfl,
            ↓reduceIte]
          exact (ih hashKey rfl trivial).mono (by simp) (by simp)
      | hashKey =>
          show Ensures (Parse.hashKey finish (n + 1)) m _ _
          simp only [Parse.hashKey, ensures_bind, ensures_kind, ensures_secondKind,
            other .identifier rfl, false_and, ↓reduceIte]
          exact ih (binary assignLevel) rfl trivial
      | condition keyword =>
          show Ensures (Parse.condition finish (n + 1) keyword) m _ _
          simp [Parse.condition, other]
      | declaration =>
          show Ensures (Parse.declaration finish (n + 1)) m _ _
          rcases hm with hm | hm
          all_goals simp only [Parse.declaration, ensures_bind, ensures_kind, hm, ensures_fail]

/-- Where a block is left open, it is not closed by what may stand there. -/
theorem stuck_blockRest (hp : c.Plain) (hm : c.ends m) (finish pos : Position) (n : Nat) :
  Ensures (Parse.blockRest finish n pos) m (fun _ _ => False) c.ends
  := by
  induction n generalizing m with
  | zero => simp [Parse.blockRest, hm]
  | succ n ih =>
      rcases hp.kindOf hm with hk | hk
      · simp [Parse.blockRest, hk, hm]
      · have hdrop : c.ends m.tail := by
          simpa [Parse.dropSemicolon, hk] using c.drop m hm
        simpa [Parse.blockRest, hk] using ih hdrop

/-- At the end and at a semicolon, a rule that has something to read fails and reads nothing. -/
theorem stuck_moved (f : Position → Position) {finish : Position}
    (hm : kindOf m = .eof ∨ kindOf m = .semicolon) (n : Nat) (r : Rule) (hr : r.needs = true)
    (hs : r.Starts m) :
  Ensures (r.runMoved f finish n) m (fun _ _ => False) (· = m)
  := by
  cases r
  case function pos => exact stuck hm n (function (f pos)) hr hs
  case assignment level left => exact stuck hm n (assignment level (left.map f id)) hr hs
  case blockRest => cases hr
  case suffixes => cases hr
  case binaryRest => cases hr
  all_goals exact stuck hm n _ hr hs

/-- A rule that can start where nothing is left can start anywhere. -/
theorem starts_of_nil {r : Rule} (hs : r.Starts []) :
  r.Starts m
  := by
  cases r
  case funcStatement => cases hs.1
  all_goals first
    | exact hs
    | cases hs

/-- Two runs of a rule where no tokens of the first one are left. -/
theorem follows_nil (h : Track c start (n + 1) (n' + 1) k [] m) (r : Rule) (hs : r.Starts [])
    (hn : r.returns = true ∨ c.Plain) (hb : c.Plain ∨ r.closes ≤ 0) :
  Follows c start (r.moved c.move) (r.run c.finish (n + 1))
    (r.runMoved c.move c.finish' (n' + 1)) [] m
  := by
  have hends : c.ends m := along_nil.mp h.along
  have hquiet : c.Quiet := h.live.resolve_left (by simp)
  cases r
  case blockRest pos =>
    have hlt : ¬ (1 : Int) ≤ 0 := by decide
    have hp : c.Plain := hb.resolve_right hlt
    obtain ⟨e, rest, hrun, hrest⟩ :=
      (stuck_blockRest hp hends c.finish' (c.move pos) (n' + 1)).error
    intro _
    exact ⟨e, rest, hrun, .ends hrest⟩
  case suffixes e =>
    show Follows c start _ (Parse.suffixes c.finish (n + 1) e)
      (Parse.suffixes c.finish' (n' + 1) (e.map c.move id)) _ _
    have hparen := h.continuing .leftParen rfl
    have hbracket := h.continuing .leftBracket rfl
    simp only [Parse.suffixes, follows_here, follows_kind, kindOf_nil]
    split
    next hk => cases hparen.mpr hk
    next hk => cases hbracket.mpr hk
    next => exact follows_pure h.along rfl
  case binaryRest level left =>
    show Follows c start _ (Parse.binaryRest c.finish (n + 1) level left)
      (Parse.binaryRest c.finish' (n' + 1) level (left.map c.move id)) _ _
    have hassign : kindOf m ≠ .assign := mt (h.continuing .assign rfl).mpr (by rintro ⟨⟩)
    have hop : BinaryOp.ofToken? (kindOf m) = none := by
      have := hquiet m hends
      simp only [continues, Bool.or_eq_false_iff, Option.isSome_eq_false_iff,
        Option.isNone_iff_eq_none] at this
      exact this.1
    simp only [Parse.binaryRest, follows_kind, kindOf_nil, hassign, hop, reduceCtorEq,
      ↓reduceIte]
    exact follows_pure h.along rfl
  case block =>
    show Follows c start _ (Parse.block c.finish (n + 1)) (Parse.block c.finish' (n' + 1)) _ _
    simp only [Parse.block, follows_here]
    apply h.expect rfl
    rintro t l' m' ⟨⟩
  -- Every other rule has to read something, so both runs fail where they are.
  all_goals
    have hp : c.Plain := hn.resolve_left (by rintro ⟨⟩)
    have hm := hp.kindOf hends
    apply follows_of_error h.along
    · exact stuck (.inl rfl) _ _ rfl hs
    · intro _
      exact stuck_moved c.move hm _ _ rfl (starts_of_nil hs)

/-- Two runs of a rule where a token of the first one is left. -/
theorem simulatedStep (ih : ∀ r, Simulated c n n' r) (r : Rule) :
  SimulatedStep c n n' r
  := by
  cases r with
  | statement => exact simulated_statement ih
  | exprStatement => exact simulated_exprStatement ih
  | letStatement => exact simulated_letStatement ih
  | returnStatement => exact simulated_returnStatement ih
  | useStatement => exact simulated_useStatement
  | funcStatement => exact simulated_funcStatement ih
  | function pos => exact simulated_function pos ih
  | params => exact simulated_params (simulated_paramNames [] ih)
  | paramNames found => exact simulated_paramNames found ih
  | block => exact simulated_block ih
  | blockRest pos => exact simulated_blockRest pos ih
  | binary level => exact simulated_binary level ih
  | binaryRest level left => exact simulated_binaryRest level left ih
  | assignment level left => exact simulated_assignment level left ih
  | unary => exact simulated_unary ih
  | suffixed => exact simulated_suffixed ih
  | suffixes e => exact simulated_suffixes e ih
  | expressions stop => exact simulated_expressions stop ih
  | primary => exact simulated_primary ih
  | hashEntries => exact simulated_hashEntries ih
  | hashKey => exact simulated_hashKey ih
  | condition keyword => exact simulated_condition keyword ih
  | conditional => exact simulated_conditional ih
  | decorated => exact simulated_decorated ih
  | declaration => exact simulated_declaration ih

/-- With enough fuel, two runs of a rule follow each other. -/
theorem simulated (c : Change) (n n' : Nat) (r : Rule) :
  Simulated c n n' r
  := by
  induction n generalizing n' r with
  | zero =>
      intro start k l m h hk
      have := h.fuel
      have : r.rank < k := by simpa using hk
      omega
  | succ n ih =>
      intro start k l m h hk hs hn hb
      have hrank : r.rank < k := by simpa using hk
      cases n' with
      | zero =>
          have := h.fuel'
          omega
      | succ n' =>
          rcases h.along with hm | @⟨t, l, m, hm⟩
          · exact follows_nil h r hs (by simpa using hn) (by simpa using hb)
          · apply simulatedStep (fun r => ih n' r) r start t l m _ hs hb
            have := h.fuel
            have := h.fuel'
            exact { h with fuel := by omega, fuel' := by omega }

end Rule

end Parse

end Scriptlet
