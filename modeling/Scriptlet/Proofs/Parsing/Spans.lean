import Mathlib.Algebra.Ring.Int.Defs
import Mathlib.Tactic.Common
import Scriptlet.Proofs.Parsing.Rule

/-!
# What a rule reads

A rule leaves the last of the tokens it is given.  If it succeeds, then no token it has read is
illegal, every brace it has opened is closed again, and each decorator it has read is that of a
decorated declaration within what it has read.

Where the tokens end in a semicolon, a rule for an expression can read all of them only if a
decorated declaration does, whose `let` reads the semicolon; and a rule can fail at the end of
them only if there is a decorator or a brace that is not closed.
-/

namespace Scriptlet

namespace Parse

/-- One for a brace that closes, minus one for a brace that opens. -/
def braces : TokenKind → Int
  | .rightBrace => 1
  | .leftBrace => -1
  | _ => 0

/-- Whether a token of a kind is neither the end, nor illegal, nor a decorator, a semicolon or an
opening brace. -/
def plain : TokenKind → Bool
  | .eof | .illegal | .decorator | .semicolon | .leftBrace => false
  | _ => true

/-- By how many the closing braces exceed the opening ones. -/
def excess (l : List Token) : Int :=
  (l.map fun t => braces t.kind).sum

/-- The number of illegal tokens. -/
def illegals (l : List Token) : Nat :=
  l.countP fun t => t.kind = .illegal

/-- Whether the last token is a semicolon. -/
def Terminated (l : List Token) : Prop :=
  ∃ t ∈ l.getLast?, t.kind = .semicolon

/-- Whether one of the tokens is a decorator. -/
def Decorates (l : List Token) : Prop :=
  ∃ t ∈ l, t.kind = .decorator

/-- Whether the tokens end in a decorated declaration that takes in the last of them. -/
def Open (finish : Position) (l : List Token) : Prop :=
  ∃ d, d <:+ l ∧ kindOf d = .decorator ∧ ∃ n e, decorated finish n d = .ok e []

/-- Where no tokens are, no brace is in excess. -/
@[simp] theorem excess_nil :
  excess [] = 0
  := rfl

/-- A token adds its own brace to the excess. -/
@[simp] theorem excess_cons (t : Token) (l : List Token) :
  excess (t :: l) = braces t.kind + excess l
  := by
  simp [excess]

/-- The excess of two parts is that of both together. -/
theorem excess_append (l m : List Token) :
  excess (l ++ m) = excess l + excess m
  := by
  simp [excess]

/-- A token adds to the illegal ones if it is one. -/
@[simp] theorem illegals_cons (t : Token) (l : List Token) :
  illegals (t :: l) = illegals l + if t.kind = .illegal then 1 else 0
  := by
  simp [illegals, List.countP_cons]

/-- No tokens end in a semicolon if there are none. -/
@[simp] theorem not_terminated_nil :
  ¬ Terminated []
  := by
  simp [Terminated]

/-- A single token is the last one. -/
@[simp] theorem terminated_singleton (t : Token) :
  Terminated [t] ↔ t.kind = .semicolon
  := by
  simp [Terminated]

/-- The last token is that of the second part if there is one. -/
theorem terminated_append {l m : List Token} (hm : m ≠ []) :
  Terminated (l ++ m) ↔ Terminated m
  := by
  unfold Terminated
  rw [List.getLast?_append, List.getLast?_eq_some_getLast hm, Option.some_or]

/-- The last token is that of the rest if there is one. -/
theorem terminated_cons (t : Token) {l : List Token} (hl : l ≠ []) :
  Terminated (t :: l) ↔ Terminated l
  := terminated_append (l := [t]) hl

/-- What is left of tokens that end in a semicolon ends in it too. -/
theorem Terminated.suffix {l m : List Token} (h : Terminated l) (hml : m <:+ l)
    (hm : m ≠ []) :
  Terminated m
  := by
  obtain ⟨p, rfl⟩ := hml
  apply (terminated_append hm).mp h

/-- A decorator in what is left was there before. -/
theorem Decorates.suffix {l m : List Token} (h : Decorates m) (hml : m <:+ l) :
  Decorates l
  := by
  obtain ⟨t, ht, hk⟩ := h
  use t, hml.subset ht

/-- What ends what is left in a decorated declaration ends all tokens in it. -/
theorem Open.suffix {finish : Position} {l m : List Token} (h : Open finish m)
    (hml : m <:+ l) :
  Open finish l
  := by
  obtain ⟨d, hd, hrun⟩ := h
  use d, hd.trans hml

/-- Tokens that end in a decorated declaration have a decorator. -/
theorem Open.decorates {finish : Position} {l : List Token} (h : Open finish l) :
  Decorates l
  := by
  obtain ⟨d, hd, hk, -⟩ := h
  cases d with
  | nil => cases hk
  | cons t d => use t, hd.subset List.mem_cons_self, hk

namespace Rule

/-- Whether the tokens start with the one that a rule takes for granted in front. -/
def Starts : Rule → List Token → Prop
  | letStatement, l => kindOf l = .letWord
  | returnStatement, l => kindOf l = .returnWord
  | useStatement, l => kindOf l = .useWord
  | funcStatement, l => kindOf l = .funcWord ∧ kindOf l.tail = .identifier
  | assignment _ _, l => kindOf l = .assign
  | conditional, l => kindOf l = .ifWord
  | decorated, l => kindOf l = .decorator
  | expressions stop, _ => stop = .rightParen ∨ stop = .rightBracket
  | _, _ => True

/-- The least number of tokens that a rule reads. -/
def least : Rule → Nat
  | params | binaryRest _ _ | suffixes _ | expressions _ | hashEntries => 0
  | _ => 1

/-- How many braces a rule closes that it has not opened. -/
def closes : Rule → Int
  | blockRest _ => 1
  | _ => 0

/-- No rule opens a brace that it leaves open. -/
theorem closes_nonneg (r : Rule) :
  0 ≤ r.closes
  := by
  cases r
  case blockRest => exact Int.one_nonneg
  all_goals exact Int.le_refl 0

/-- Whether a rule leaves a semicolon behind what it parses. -/
def leaves : Rule → Bool
  | statement | exprStatement | letStatement | returnStatement | useStatement | funcStatement
  | declaration => false
  | _ => true

end Rule

variable {finish : Position}

/-- From `l`, at least `k` tokens are read and `rest` is left.  None of the tokens read is
illegal, and among them closing braces exceed opening ones by `e`, and those opened behind any of
them are closed behind it, but for what `e` lacks.  If `c` holds, then a last semicolon is read
only by a decorated declaration. -/
structure Spans (finish : Position) (k : Nat) (e : Int) (c : Bool) (l rest : List Token) :
    Prop where
  suffix : rest <:+ l
  least : rest.length + k ≤ l.length
  excess_eq : excess l = excess rest + e
  nested : ∀ q, q <:+ l → rest <:+ q → excess rest + min e 0 ≤ excess q
  illegals_eq : illegals l = illegals rest
  decorators : ∀ d, d <:+ l → kindOf d = .decorator →
    d <:+ rest ∨ ∃ n a m, decorated finish n d = .ok a m ∧ rest <:+ m
  last : c = true → rest = [] → Terminated l → Open finish l

/-- From `l`, a rule fails with `rest` left.  It fails behind a last semicolon only if there is
a decorator or if there are less than `e` closing braces in excess of opening ones. -/
structure Fails (e : Int) (l rest : List Token) : Prop where
  suffix : rest <:+ l
  last : rest = [] → Terminated l → Decorates l ∨ excess l < e

namespace Spans

variable {k : Nat} {e : Int} {c : Bool} {l m rest : List Token}

/-- Where nothing is read, nothing is in excess. -/
theorem refl (finish : Position) (l : List Token) :
  Spans finish 0 0 true l l
  where
  suffix := List.suffix_rfl
  least := by omega
  excess_eq := by omega
  nested := by
    intro q hq hrest
    have : q = l := hq.eq_of_length_le hrest.length_le
    simp [this]
  illegals_eq := rfl
  decorators := fun d hd _ => .inl hd
  last := by
    rintro - rfl h
    simp at h

/-- What two steps read, unless the first closes braces and the second leaves some open. -/
theorem trans {j : Nat} {d : Int} {c' : Bool} (h : Spans finish k e c l m)
    (h' : Spans finish j d c' m rest) (hc : c = true ∨ 0 < j) (hed : e ≤ 0 ∨ 0 ≤ d) :
  Spans finish (k + j) (e + d) c' l rest
  := by
  obtain ⟨hs, hk, he, hn, hi, hd, hl⟩ := h
  obtain ⟨hs', hk', he', hn', hi', hd', hl'⟩ := h'
  constructor
  · apply hs'.trans hs
  · omega
  · omega
  · intro q hq hrest
    rcases List.suffix_or_suffix_of_suffix hq hs with hqm | hmq
    · have := hn' q hqm hrest
      omega
    · have := hn q hq hmq
      omega
  · omega
  · intro d hdl hkind
    rcases hd d hdl hkind with hdm | ⟨n, a, m', hrun, hm'⟩
    · apply hd' d hdm hkind
    · exact .inr ⟨n, a, m', hrun, hs'.trans hm'⟩
  · rintro hc' rfl hterm
    by_cases hm : m = []
    · -- Nothing is left for the second part, so the first part has read the last semicolon.
      have hj : ¬ 0 < j := by
        simp [hm] at hk'
        omega
      apply hl (hc.resolve_right hj) hm hterm
    · apply (hl' hc' rfl (hterm.suffix hs hm)).suffix hs

/-- Fewer tokens, and less said of the last semicolon. -/
theorem weaken {j : Nat} {d : Int} {c' : Bool} (h : Spans finish k e c l m)
    (hj : Nat.ble j k = true) (hd : d = e) (hc : (!c' || c) = true) :
  Spans finish j d c' l m
  where
  suffix := h.suffix
  least := by
    have := h.least
    have := Nat.le_of_ble_eq_true hj
    omega
  excess_eq := by rw [hd, h.excess_eq]
  nested := by
    rw [hd]
    exact h.nested
  illegals_eq := h.illegals_eq
  decorators := h.decorators
  last := fun h' => h.last (by simpa [h'] using hc)

/-- Reading one token that may be a semicolon. -/
theorem step {t : Token} (he : t.kind ≠ .illegal) (hd : t.kind ≠ .decorator) :
  Spans finish 1 (braces t.kind) false (t :: m) m
  where
  suffix := List.suffix_cons t m
  least := by simp
  excess_eq := by simp [Int.add_comm]
  nested := by
    intro q hq hm
    rcases List.suffix_cons_iff.mp hq with rfl | hqm
    · simp
      omega
    · have : q = m := hqm.eq_of_length_le hm.length_le
      rw [this]
      omega
  illegals_eq := by simp [he]
  decorators := by
    intro d hdl hkind
    rcases List.suffix_cons_iff.mp hdl with rfl | hdm
    · contradiction
    · exact .inl hdm
  last := by simp

/-- Reading one token that is no semicolon. -/
theorem step_true {t : Token} (he : t.kind ≠ .illegal) (hd : t.kind ≠ .decorator)
    (hs : t.kind ≠ .semicolon) :
  Spans finish 1 (braces t.kind) true (t :: m) m
  := by
  have h : Spans finish 1 (braces t.kind) false (t :: m) m := step he hd
  constructor
  · exact h.suffix
  · exact h.least
  · exact h.excess_eq
  · exact h.nested
  · exact h.illegals_eq
  · exact h.decorators
  · rintro - rfl hterm
    exact absurd ((terminated_singleton t).mp hterm) hs

/-- Reading one more token, of a kind that makes no difference. -/
theorem tail {kind : TokenKind} (h : Spans finish k e true l m) (hm : kindOf m = kind)
    (he : plain kind = true) :
  Spans finish (k + 1) (e + braces kind) true l m.tail
  := by
  cases m with
  | nil => simp [← hm, plain] at he
  | cons t m =>
      rw [kindOf_cons] at hm
      subst hm
      have hbraces : 0 ≤ braces t.kind := by
        cases hk : t.kind
        all_goals simp [hk, plain, braces] at he ⊢
      apply h.trans _ (.inl rfl) (.inr hbraces)
      apply step_true
      · rintro hi
        simp [hi, plain] at he
      · rintro hd
        simp [hd, plain] at he
      · rintro hs
        simp [hs, plain] at he

/-- Reading an opening brace. -/
theorem leftBrace (h : Spans finish k 0 true l m) (hm : kindOf m = .leftBrace) :
  Spans finish (k + 1) (-1) true l m.tail
  := by
  cases m with
  | nil => cases hm
  | cons t m =>
      rw [kindOf_cons] at hm
      have ht : Spans finish 1 (braces t.kind) true (t :: m) m := by
        apply step_true
        all_goals simp [hm]
      rw [hm] at ht
      exact h.trans ht (.inl rfl) (.inl (Int.le_refl 0))

/-- The semicolon behind what is read is read, too, and may be the last one. -/
theorem dropSemicolon (h : Spans finish k e true l m) :
  Spans finish k e false l (dropSemicolon m)
  := by
  unfold Parse.dropSemicolon
  split
  next hm =>
    cases m with
    | nil => cases hm
    | cons t m =>
        rw [kindOf_cons] at hm
        have ht : Spans finish 1 (braces t.kind) false (t :: m) m := by
          apply step
          · simp [hm]
          · simp [hm]
        have hbraces : 0 ≤ braces t.kind := by simp [hm, braces]
        exact (h.trans ht (.inl rfl) (.inr hbraces)).weaken (by simp) (by simp [hm, braces]) rfl
  next => exact h.weaken (by simp) rfl rfl

/-- Failing behind what has been read. -/
theorem fails {d : Int} (h : Spans finish k e true l m) :
  Fails d l m
  where
  suffix := h.suffix
  last := fun hm hterm => .inl (h.last rfl hm hterm).decorates

/-- Reading the token of an operator between operands. -/
theorem binaryOp {op : BinaryOp} (h : Spans finish k e true l m)
    (hm : BinaryOp.ofToken? (kindOf m) = some op) :
  Spans finish (k + 1) e true l m.tail
  := by
  have plain : plain (kindOf m) = true ∧ braces (kindOf m) = 0 := by
    cases hk : kindOf m
    all_goals first
      | exact ⟨rfl, rfl⟩
      | simp [hk, BinaryOp.ofToken?] at hm
  simpa [plain.2] using h.tail rfl plain.1

/-- Reading the token of an operator in front of its operand. -/
theorem unaryOp {op : UnaryOp} (h : Spans finish k e true l m)
    (hm : UnaryOp.ofToken? (kindOf m) = some op) :
  Spans finish (k + 1) e true l m.tail
  := by
  have plain : plain (kindOf m) = true ∧ braces (kindOf m) = 0 := by
    cases hk : kindOf m
    all_goals first
      | exact ⟨rfl, rfl⟩
      | simp [hk, UnaryOp.ofToken?] at hm
  simpa [plain.2] using h.tail rfl plain.1

variable {α : Type} {d : Int}

/-- An expected token is one more, with its brace. -/
theorem expect (h : Spans finish k e true l m) {wanted : TokenKind} {what : Expectation}
    {Q : Unit → List Token → Prop}
    (he : plain wanted = true)
    (hQ : Spans finish (k + 1) (e + braces wanted) true l m.tail → Q () m.tail) :
  Ensures (Parse.expect finish wanted what) m Q (Fails d l)
  := by
  rw [ensures_expect]
  split
  next hm => exact hQ (h.tail hm he)
  next => exact h.fails

/-- A name is one more token. -/
theorem identifier (h : Spans finish k e true l m) {what : Expectation}
    {Q : String → List Token → Prop}
    (hQ : Spans finish (k + 1) e true l m.tail → Q (wordOf m) m.tail) :
  Ensures (Parse.identifier finish what) m Q (Fails d l)
  := by
  rw [ensures_identifier]
  split
  next hm => exact hQ ((h.tail hm rfl).weaken (by simp) (by simp [braces]) rfl)
  next => exact h.fails

/-- A comma may be one more token. -/
theorem skipComma (h : Spans finish k e true l m) {Q : Bool → List Token → Prop}
    (hQ : ∀ b rest, Spans finish k e true l rest → Q b rest) :
  Ensures Parse.skipComma m Q (Fails d l)
  := by
  rw [ensures_skipComma]
  split
  next hm => exact hQ _ _ ((h.tail hm rfl).weaken (by simp) (by simp [braces]) rfl)
  next => exact hQ _ _ h

end Spans

/-- Failing behind what has been read, which may have closed `e` of the `j` braces that are to be
closed. -/
theorem Fails.after {k : Nat} {e d j : Int} {l m rest : List Token}
    (h : Spans finish k e true l m) (h' : Fails d m rest) (hj : e + d ≤ j) :
  Fails j l rest
  where
  suffix := h'.suffix.trans h.suffix
  last := by
    rintro rfl hterm
    by_cases hm : m = []
    · left
      apply (h.last rfl hm hterm).decorates
    · rcases h'.last rfl (hterm.suffix h.suffix hm) with hdec | hexc
      · left
        apply hdec.suffix h.suffix
      · right
        have := h.excess_eq
        omega

namespace Rule

/-- With `n` units of fuel, a rule reads what `Spans` says or fails as `Fails` says. -/
def SpansWith (finish : Position) (n : Nat) (r : Rule) : Prop :=
  ∀ l, r.Starts l →
    Ensures (r.run finish n) l (fun _ rest => Spans finish r.least r.closes r.leaves l rest)
      (Fails r.closes l)

variable {n : Nat}

/-- A rule behind what has been read. -/
theorem SpansWith.after {r : Rule} (hr : SpansWith finish n r) {k : Nat} {e d : Int}
    {l m : List Token} (h : Spans finish k e true l m) {Q : r.Result → List Token → Prop}
    (hm : r.Starts m)
    (hd : decide (e + r.closes ≤ d) = true)
    (hQ : ∀ a rest, Spans finish (k + r.least) (e + r.closes) r.leaves l rest → Q a rest) :
  Ensures (r.run finish n) m Q (Fails d l)
  := by
  apply (hr m hm).mono
  · intro a rest ha
    apply hQ a rest (h.trans ha (.inl rfl) (.inr r.closes_nonneg))
  · intro rest hrest
    apply hrest.after h (of_decide_eq_true hd)

/-- A statement reads what the rule that its first token calls for reads. -/
theorem spansWith_statement (ih : ∀ r, SpansWith finish n r) :
  SpansWith finish (n + 1) statement
  := by
  intro l _
  show Ensures (Parse.statement finish (n + 1)) l _ _
  simp only [Parse.statement, ensures_bind, ensures_kind]
  split
  next h => apply ih letStatement l h
  next h => apply ih returnStatement l h
  next h => apply ih useStatement l h
  next h =>
    simp only [ensures_bind, ensures_here, ensures_pure]
    apply (ih block).after (.refl finish l) trivial rfl
    intro body rest h
    exact h.weaken rfl rfl rfl
  next h =>
    simp only [ensures_bind, ensures_secondKind, ensures_ite]
    split
    next hk => apply ih funcStatement l ⟨h, hk⟩
    next => apply ih exprStatement l trivial
  next => apply ih exprStatement l trivial

/-- An expression statement reads an expression and a semicolon behind it. -/
theorem spansWith_exprStatement (ih : ∀ r, SpansWith finish n r) :
  SpansWith finish (n + 1) exprStatement
  := by
  intro l _
  show Ensures (Parse.exprStatement finish (n + 1)) l _ _
  simp only [Parse.exprStatement, ensures_bind, ensures_here, ensures_skipSemicolon,
    ensures_pure]
  apply (ih (binary _)).after (.refl finish l) trivial rfl
  intro e rest h
  exact h.dropSemicolon.weaken rfl rfl rfl

/-- A definition reads its value and a semicolon behind it. -/
theorem spansWith_letStatement (ih : ∀ r, SpansWith finish n r) :
  SpansWith finish (n + 1) letStatement
  := by
  intro l hl
  show Ensures (Parse.letStatement finish (n + 1)) l _ _
  simp only [Parse.letStatement, ensures_bind, ensures_here, ensures_advance,
    ensures_skipSemicolon, ensures_pure]
  apply ((Spans.refl finish l).tail hl rfl).identifier
  intro h
  apply h.expect rfl
  intro h
  apply (ih (binary _)).after h trivial rfl
  intro value rest h
  exact h.dropSemicolon.weaken rfl rfl rfl

/-- A return reads what it hands back and a semicolon behind it. -/
theorem spansWith_returnStatement (ih : ∀ r, SpansWith finish n r) :
  SpansWith finish (n + 1) returnStatement
  := by
  intro l hl
  have h := (Spans.refl finish l).tail hl rfl
  have hnone : Spans finish 1 0 false l (dropSemicolon l.tail) := h.dropSemicolon.weaken rfl rfl rfl
  show Ensures (Parse.returnStatement finish (n + 1)) l _ _
  simp only [Parse.returnStatement, ensures_bind, ensures_here, ensures_advance,
    ensures_kind]
  split
  · simp only [ensures_bind, ensures_skipSemicolon, ensures_pure]
    exact hnone
  · simp only [ensures_bind, ensures_skipSemicolon, ensures_pure]
    exact hnone
  · simp only [ensures_bind, ensures_skipSemicolon, ensures_pure]
    exact hnone
  · simp only [ensures_bind, ensures_skipSemicolon, ensures_pure]
    apply (ih (binary _)).after h trivial rfl
    intro e rest h
    exact h.dropSemicolon.weaken rfl rfl rfl

/-- An import reads a word or a text and a semicolon behind it. -/
theorem spansWith_useStatement :
  SpansWith finish n useStatement
  := by
  intro l hl
  have h := (Spans.refl finish l).tail hl rfl
  show Ensures (Parse.useStatement finish) l _ _
  simp only [Parse.useStatement, ensures_bind, ensures_here, ensures_advance, ensures_kind]
  split
  next hk =>
    simp only [ensures_bind, ensures_word, ensures_advance, ensures_skipSemicolon, ensures_pure]
    exact (h.tail hk rfl).dropSemicolon.weaken rfl rfl rfl
  next hk =>
    simp only [ensures_bind, ensures_word, ensures_advance, ensures_skipSemicolon, ensures_pure]
    exact (h.tail hk rfl).dropSemicolon.weaken rfl rfl rfl
  next =>
    rw [ensures_unexpected]
    exact h.fails

/-- A named function reads a semicolon behind its brace. -/
theorem spansWith_funcStatement (ih : ∀ r, SpansWith finish n r) :
  SpansWith finish (n + 1) funcStatement
  := by
  intro l hl
  show Ensures (Parse.funcStatement finish (n + 1)) l _ _
  simp only [Parse.funcStatement, ensures_bind, ensures_here, ensures_advance,
    ensures_word, ensures_skipSemicolon, ensures_pure]
  apply (ih (function _)).after ((Spans.refl finish l).tail hl.1 rfl) trivial rfl
  intro value rest h
  exact h.dropSemicolon.weaken rfl rfl rfl

/-- A function closes the brace that its body opens. -/
theorem spansWith_function (pos : Position) (ih : ∀ r, SpansWith finish n r) :
  SpansWith finish (n + 1) (function pos)
  := by
  intro l _
  have key {k : Nat} {m : List Token} (name : Option String) (h : Spans finish k 0 true l m) :
    Ensures (do
        expect finish .leftParen .paramsStart
        let names ← Parse.params finish n
        expect finish .rightParen .paramsEnd
        return .func pos name names (← Parse.block finish n)) m
      (fun (_ : Expr) rest => Spans finish 1 0 true l rest) (Fails 0 l)
    := by
    simp only [ensures_bind, ensures_pure]
    apply h.expect rfl
    intro h
    apply (ih params).after h trivial rfl
    intro names m h
    apply h.expect rfl
    intro h
    apply (ih block).after h trivial rfl
    intro body rest h
    exact h.weaken rfl rfl rfl
  show Ensures (Parse.function finish (n + 1) pos) l _ _
  simp only [Parse.function, ensures_bind, ensures_kind, ensures_ite, ensures_map,
    ensures_pure]
  split
  next hk =>
    apply (Spans.refl finish l).identifier
    intro h
    have := key (some (wordOf l)) h
    simp only [ensures_bind, ensures_pure] at this
    exact this
  next =>
    have := key none (.refl finish l)
    simp only [ensures_bind, ensures_pure] at this
    exact this

/-- Parameters are names with commas between them. -/
theorem spansWith_paramNames (found : List String) (ih : ∀ r, SpansWith finish n r) :
  SpansWith finish (n + 1) (paramNames found)
  := by
  intro l _
  show Ensures (Parse.paramNames finish (n + 1) found) l _ _
  simp only [Parse.paramNames, ensures_bind, ensures_here]
  apply (Spans.refl finish l).identifier
  intro h
  simp only [ensures_ite, ensures_bind, ensures_throw, ensures_pure]
  split
  · exact h.fails
  · apply h.skipComma
    intro more m h
    split
    · apply (ih (paramNames _)).after h trivial rfl
      intro names rest h
      exact h.weaken rfl rfl rfl
    · exact h.weaken rfl rfl rfl

/-- Parameters open no brace. -/
theorem spansWith_params (h : SpansWith finish n (paramNames [])) :
  SpansWith finish n params
  := by
  intro l _
  show Ensures (Parse.params finish n) l _ _
  simp only [Parse.params, ensures_bind, ensures_kind, ensures_ite, ensures_pure]
  split
  · exact .refl finish l
  · apply h.after (.refl finish l) trivial rfl
    intro names rest h
    exact h.weaken rfl rfl rfl

/-- A block closes the brace that it opens. -/
theorem spansWith_block (ih : ∀ r, SpansWith finish n r) :
  SpansWith finish (n + 1) block
  := by
  intro l _
  show Ensures (Parse.block finish (n + 1)) l _ _
  simp only [Parse.block, ensures_bind, ensures_here, ensures_expect]
  split
  next hk =>
    apply (ih (blockRest _)).after ((Spans.refl finish l).leftBrace hk) trivial rfl
    intro body rest h
    exact h.weaken rfl rfl rfl
  next => exact (Spans.refl finish l).fails

/-- Behind a statement, which may have read a last semicolon, the brace that closes the block is
still called for. -/
theorem SpansWith.afterStatement {start : Position} (hr : SpansWith finish n (blockRest start))
    {k : Nat} {l m : List Token} (h : Spans finish k 0 false l m)
    {Q : List Stmt → List Token → Prop}
    (hQ : ∀ a rest, Spans finish 1 1 true l rest → Q a rest) :
  Ensures (Parse.blockRest finish n start) m Q (Fails 1 l)
  := by
  apply (hr m trivial).mono
  · intro a rest ha
    apply hQ a rest
    exact (h.trans ha (.inr Nat.one_pos) (.inl (Int.le_refl 0))).weaken rfl rfl rfl
  · intro rest hrest
    constructor
    · exact hrest.suffix.trans h.suffix
    · rintro rfl hterm
      have hexcess := h.excess_eq
      by_cases hm : m = []
      · right
        simp [hexcess, hm]
      · rcases hrest.last rfl (hterm.suffix h.suffix hm) with hdec | hlt
        · exact .inl (hdec.suffix h.suffix)
        · right
          simpa [hexcess, closes] using hlt

/-- The rest of a block closes one brace more than it opens. -/
theorem spansWith_blockRest (start : Position) (ih : ∀ r, SpansWith finish n r) :
  SpansWith finish (n + 1) (blockRest start)
  := by
  intro l _
  show Ensures (Parse.blockRest finish (n + 1) start) l _ _
  simp only [Parse.blockRest, ensures_bind, ensures_kind]
  split
  next hk =>
    simp only [ensures_bind, ensures_advance, ensures_pure]
    exact ((Spans.refl finish l).tail hk rfl).weaken rfl rfl rfl
  next hk =>
    rw [ensures_throw]
    exact (Spans.refl finish l).fails
  next hk =>
    simp only [ensures_bind, ensures_advance]
    have h : Spans finish 0 0 false l l.tail := by
      simpa [Parse.dropSemicolon, hk] using (Spans.refl finish l).dropSemicolon
    apply (ih (blockRest start)).afterStatement h
    intro body rest h
    exact h
  next =>
    simp only [ensures_bind, ensures_pure]
    apply (ih statement).after (.refl finish l) trivial rfl
    intro s m h
    apply (ih (blockRest start)).afterStatement h
    intro body rest h
    exact h

/-- An expression reads its operand and the operators behind it. -/
theorem spansWith_binary (level : Nat) (ih : ∀ r, SpansWith finish n r) :
  SpansWith finish (n + 1) (binary level)
  := by
  intro l _
  show Ensures (Parse.binary finish (n + 1) level) l _ _
  simp only [Parse.binary, ensures_bind]
  apply (ih unary).after (.refl finish l) trivial rfl
  intro left m h
  apply (ih (binaryRest _ _)).after h trivial rfl
  intro e rest h
  exact h.weaken rfl rfl rfl

/-- An operator is read with its right side. -/
theorem spansWith_binaryRest (level : Nat) (left : Expr) (ih : ∀ r, SpansWith finish n r) :
  SpansWith finish (n + 1) (binaryRest level left)
  := by
  intro l _
  show Ensures (Parse.binaryRest finish (n + 1) level left) l _ _
  simp only [Parse.binaryRest, ensures_bind, ensures_kind, ensures_ite, ensures_pure]
  split
  next hk =>
    split
    · exact .refl finish l
    · apply (ih (assignment _ _)).after (.refl finish l) hk rfl
      intro e rest h
      exact h.weaken rfl rfl rfl
  next =>
    split
    · exact .refl finish l
    next op hop =>
      simp only [ensures_ite, ensures_bind, ensures_here, ensures_advance, ensures_pure]
      split
      · exact .refl finish l
      · apply (ih (binary _)).after ((Spans.refl finish l).binaryOp hop) trivial rfl
        intro right m h
        apply (ih (binaryRest _ _)).after h trivial rfl
        intro e rest h
        exact h.weaken rfl rfl rfl

/-- An assignment is read with its value. -/
theorem spansWith_assignment (level : Nat) (left : Expr) (ih : ∀ r, SpansWith finish n r) :
  SpansWith finish (n + 1) (assignment level left)
  := by
  intro l hl
  have h := (Spans.refl finish l).tail hl rfl
  show Ensures (Parse.assignment finish (n + 1) level left) l _ _
  simp only [Parse.assignment, ensures_bind, ensures_here, ensures_advance]
  split
  · simp only [ensures_bind]
    apply (ih (binary _)).after h trivial rfl
    intro value m h
    apply (ih (binaryRest _ _)).after h trivial rfl
    intro e rest h
    exact h.weaken rfl rfl rfl
  · exact h.fails

/-- A prefix is read with what stands behind it. -/
theorem spansWith_unary (ih : ∀ r, SpansWith finish n r) :
  SpansWith finish (n + 1) unary
  := by
  intro l _
  show Ensures (Parse.unary finish (n + 1)) l _ _
  simp only [Parse.unary, ensures_bind, ensures_here, ensures_kind]
  split
  next => apply ih suffixed l trivial
  next hop =>
    simp only [ensures_bind, ensures_advance, ensures_pure]
    apply (ih (binary _)).after ((Spans.refl finish l).unaryOp hop) trivial rfl
    intro e rest h
    exact h.weaken rfl rfl rfl
  next hop =>
    simp only [ensures_bind, ensures_advance, ensures_here, ensures_pure]
    apply ((Spans.refl finish l).unaryOp hop).identifier
    intro h
    exact h.weaken rfl rfl rfl
  next hop =>
    simp only [ensures_bind, ensures_advance, ensures_pure]
    apply (ih unary).after ((Spans.refl finish l).unaryOp hop) trivial rfl
    intro e rest h
    exact h.weaken rfl rfl rfl

/-- An operand is read with its calls and indices. -/
theorem spansWith_suffixed (ih : ∀ r, SpansWith finish n r) :
  SpansWith finish (n + 1) suffixed
  := by
  intro l _
  show Ensures (Parse.suffixed finish (n + 1)) l _ _
  simp only [Parse.suffixed, ensures_bind]
  apply (ih primary).after (.refl finish l) trivial rfl
  intro e m h
  apply (ih (suffixes _)).after h trivial rfl
  intro e rest h
  exact h.weaken rfl rfl rfl

/-- Calls and indices close the parentheses and brackets that they open. -/
theorem spansWith_suffixes (e : Expr) (ih : ∀ r, SpansWith finish n r) :
  SpansWith finish (n + 1) (suffixes e)
  := by
  intro l _
  show Ensures (Parse.suffixes finish (n + 1) e) l _ _
  simp only [Parse.suffixes, ensures_bind, ensures_here, ensures_kind]
  split
  next hk =>
    simp only [ensures_bind, ensures_advance]
    apply (ih (expressions .rightParen)).after ((Spans.refl finish l).tail hk rfl) (.inl rfl) rfl
    intro args m h
    apply h.expect rfl
    intro h
    apply (ih (suffixes _)).after h trivial rfl
    intro e rest h
    exact h.weaken rfl rfl rfl
  next hk =>
    simp only [ensures_bind, ensures_advance]
    apply (ih (binary _)).after ((Spans.refl finish l).tail hk rfl) trivial rfl
    intro i m h
    apply h.expect rfl
    intro h
    apply (ih (suffixes _)).after h trivial rfl
    intro e rest h
    exact h.weaken rfl rfl rfl
  next => exact .refl finish l

/-- A list reads expressions with commas between them. -/
theorem spansWith_expressions (stop : TokenKind) (ih : ∀ r, SpansWith finish n r) :
  SpansWith finish (n + 1) (expressions stop)
  := by
  intro l hl
  show Ensures (Parse.expressions finish (n + 1) stop) l _ _
  simp only [Parse.expressions, ensures_bind, ensures_kind, ensures_ite, ensures_pure]
  split
  · exact .refl finish l
  · apply (ih (binary _)).after (.refl finish l) trivial rfl
    intro e m h
    apply h.skipComma
    intro more m h
    split
    · apply (ih (expressions _)).after h hl rfl
      intro es rest h
      exact h.weaken rfl rfl rfl
    · exact h.weaken rfl rfl rfl

/-- An operand closes what it opens, and only a decorated declaration reads a semicolon at its
end. -/
theorem spansWith_primary (ih : ∀ r, SpansWith finish n r) :
  SpansWith finish (n + 1) primary
  := by
  intro l _
  show Ensures (Parse.primary finish (n + 1)) l _ _
  simp only [Parse.primary, ensures_bind, ensures_here, ensures_kind]
  split
  next hk =>
    simp only [ensures_bind, ensures_advance, ensures_word, ensures_pure]
    exact ((Spans.refl finish l).tail hk rfl).weaken rfl rfl rfl
  next hk =>
    simp only [ensures_bind, ensures_advance, ensures_word, ensures_pure]
    exact ((Spans.refl finish l).tail hk rfl).weaken rfl rfl rfl
  next hk =>
    simp only [ensures_bind, ensures_advance, ensures_pure]
    exact ((Spans.refl finish l).tail hk rfl).weaken rfl rfl rfl
  next hk =>
    simp only [ensures_bind, ensures_advance, ensures_pure]
    exact ((Spans.refl finish l).tail hk rfl).weaken rfl rfl rfl
  next hk =>
    simp only [ensures_bind, ensures_advance, ensures_pure]
    exact ((Spans.refl finish l).tail hk rfl).weaken rfl rfl rfl
  next hk =>
    simp only [ensures_bind, ensures_advance, ensures_word, ensures_pure]
    exact ((Spans.refl finish l).tail hk rfl).weaken rfl rfl rfl
  next hk =>
    simp only [ensures_bind, ensures_advance, ensures_pure]
    apply (ih (binary _)).after ((Spans.refl finish l).tail hk rfl) trivial rfl
    intro e m h
    apply h.expect rfl
    intro h
    exact h.weaken rfl rfl rfl
  next hk =>
    simp only [ensures_bind, ensures_advance, ensures_pure]
    apply (ih (expressions .rightBracket)).after ((Spans.refl finish l).tail hk rfl) (.inr rfl) rfl
    intro es m h
    apply h.expect rfl
    intro h
    exact h.weaken rfl rfl rfl
  next hk =>
    simp only [ensures_bind, ensures_advance, ensures_pure]
    apply (ih hashEntries).after ((Spans.refl finish l).leftBrace hk) trivial rfl
    intro entries m h
    apply h.expect rfl
    intro h
    exact h.weaken rfl rfl rfl
  next hk => apply ih conditional l hk
  next hk =>
    simp only [ensures_bind, ensures_advance, ensures_pure]
    apply (ih (condition _)).after ((Spans.refl finish l).tail hk rfl) trivial rfl
    intro test m h
    apply (ih block).after h trivial rfl
    intro body rest h
    exact h.weaken rfl rfl rfl
  next hk =>
    simp only [ensures_bind, ensures_advance]
    apply (ih (function _)).after ((Spans.refl finish l).tail hk rfl) trivial rfl
    intro e rest h
    exact h.weaken rfl rfl rfl
  next hk => apply ih decorated l hk
  next =>
    rw [ensures_noExpression]
    exact (Spans.refl finish l).fails

/-- Entries leave the brace that closes their hash. -/
theorem spansWith_hashEntries (ih : ∀ r, SpansWith finish n r) :
  SpansWith finish (n + 1) hashEntries
  := by
  intro l _
  show Ensures (Parse.hashEntries finish (n + 1)) l _ _
  simp only [Parse.hashEntries, ensures_bind, ensures_kind, ensures_ite, ensures_pure]
  split
  · exact .refl finish l
  · apply (ih hashKey).after (.refl finish l) trivial rfl
    intro key m h
    apply h.expect rfl
    intro h
    apply (ih (binary _)).after h trivial rfl
    intro value m h
    apply h.skipComma
    intro more m h
    split
    · apply (ih hashEntries).after h trivial rfl
      intro entries rest h
      exact h.weaken rfl rfl rfl
    · exact h.weaken rfl rfl rfl

/-- A key is a name or an expression. -/
theorem spansWith_hashKey (ih : ∀ r, SpansWith finish n r) :
  SpansWith finish (n + 1) hashKey
  := by
  intro l _
  show Ensures (Parse.hashKey finish (n + 1)) l _ _
  simp only [Parse.hashKey, ensures_bind, ensures_kind, ensures_secondKind, ensures_ite]
  split
  next hk =>
    simp only [ensures_here, ensures_word, ensures_advance, ensures_pure]
    exact ((Spans.refl finish l).tail hk.1 rfl).weaken rfl rfl rfl
  next => apply ih (binary _) l trivial

/-- A condition is an expression between parentheses. -/
theorem spansWith_condition (keyword : String) (ih : ∀ r, SpansWith finish n r) :
  SpansWith finish (n + 1) (condition keyword)
  := by
  intro l _
  show Ensures (Parse.condition finish (n + 1) keyword) l _ _
  simp only [Parse.condition, ensures_bind, ensures_pure]
  apply (Spans.refl finish l).expect rfl
  intro h
  apply (ih (binary _)).after h trivial rfl
  intro test m h
  apply h.expect rfl
  intro h
  exact h.weaken rfl rfl rfl

/-- A conditional closes the braces of its branches. -/
theorem spansWith_conditional (ih : ∀ r, SpansWith finish n r) :
  SpansWith finish (n + 1) conditional
  := by
  intro l hl
  show Ensures (Parse.conditional finish (n + 1)) l _ _
  simp only [Parse.conditional, ensures_bind, ensures_here, ensures_advance, ensures_kind,
    ensures_ite, ensures_pure]
  apply (ih (condition _)).after ((Spans.refl finish l).tail hl rfl) trivial rfl
  intro test m h
  apply (ih block).after h trivial rfl
  intro yes m h
  split
  next hk =>
    have h := h.tail hk rfl
    split
    next hk' =>
      apply (ih conditional).after h hk' rfl
      intro nested rest h
      exact h.weaken rfl rfl rfl
    next =>
      apply (ih block).after h trivial rfl
      intro no rest h
      exact h.weaken rfl rfl rfl
  next => exact h.weaken rfl rfl rfl

/-- A declaration reads the semicolon behind it, so the last one may be read. -/
theorem spansWith_declaration (ih : ∀ r, SpansWith finish n r) :
  SpansWith finish (n + 1) declaration
  := by
  intro l _
  show Ensures (Parse.declaration finish (n + 1)) l _ _
  simp only [Parse.declaration, ensures_bind, ensures_kind]
  split
  next hk => apply ih letStatement l hk
  next hk =>
    simp only [ensures_bind, ensures_secondKind, ensures_ite, ensures_fail]
    split
    next hk' => apply ih funcStatement l ⟨hk, hk'⟩
    next => exact (Spans.refl finish l).fails
  next hk =>
    simp only [ensures_bind, ensures_here, ensures_pure]
    apply (ih decorated).after (.refl finish l) hk rfl
    intro e rest h
    exact h.weaken rfl rfl rfl
  next =>
    rw [ensures_fail]
    exact (Spans.refl finish l).fails

/-- A decorated declaration is itself one of those that `Spans` speaks of, so that it may read a
last semicolon. -/
theorem spansWith_decorated (ih : ∀ r, SpansWith finish n r) :
  SpansWith finish (n + 1) decorated
  := by
  intro l hl
  cases l with
  | nil => cases hl
  | cons t m =>
      -- The tokens behind the decorator are read like those of any other rule.
      have body :
        Ensures (Parse.decorated finish (n + 1)) (t :: m)
          (fun _ rest => Spans finish 0 0 false m rest) (Fails 0 m)
        := by
        simp only [Parse.decorated, ensures_bind, ensures_here, ensures_advance, ensures_kind,
          ensures_ite, ensures_pure, List.tail_cons]
        apply (Spans.refl finish m).identifier
        intro h
        split
        next hk =>
          apply (ih (expressions .rightParen)).after (h.tail hk rfl) (.inl rfl) rfl
          intro args m h
          apply h.expect rfl
          intro h
          apply (ih declaration).after h trivial rfl
          intro s rest h
          exact h.weaken rfl rfl rfl
        next =>
          apply (ih declaration).after h trivial rfl
          intro s rest h
          exact h.weaken rfl rfl rfl
      apply body.run.mono
      · rintro e rest ⟨h, hrun⟩
        have hdec : Decorates (t :: m) := by
          use t, List.mem_cons_self, hl
        constructor
        · exact h.suffix.trans (List.suffix_cons t m)
        · have := h.least
          simp [least]
          omega
        · have := h.excess_eq
          have hk : t.kind = .decorator := hl
          simp [hk, braces, closes, this]
        · intro q hq hrest
          have hk : t.kind = .decorator := hl
          rcases List.suffix_cons_iff.mp hq with rfl | hqm
          · simp [hk, braces, closes, h.excess_eq]
          · exact h.nested q hqm hrest
        · have hk : t.kind = .decorator := hl
          simp [hk, h.illegals_eq]
        · intro d hd hkind
          rcases List.suffix_cons_iff.mp hd with rfl | hdm
          · exact .inr ⟨n + 1, e, rest, hrun, List.suffix_rfl⟩
          · exact h.decorators d hdm hkind
        · rintro - rfl -
          exact ⟨t :: m, List.suffix_rfl, hl, n + 1, e, hrun⟩
      · intro rest h
        constructor
        · exact h.suffix.trans (List.suffix_cons t m)
        · rintro - -
          left
          use t, List.mem_cons_self, hl

/-- What every rule reads. -/
theorem spansWith (finish : Position) (n : Nat) (r : Rule) :
  SpansWith finish n r
  := by
  induction n generalizing r with
  | zero =>
      have hzero (r : Rule) (hp : r ≠ params) (hu : r ≠ useStatement) :
        SpansWith finish 0 r
        := by
        intro l _
        rw [run_zero finish r hp hu, ensures_fail]
        exact (Spans.refl finish l).fails
      by_cases hp : r = params
      · rw [hp]
        exact spansWith_params (hzero _ (by rintro ⟨⟩) (by rintro ⟨⟩))
      · by_cases hu : r = useStatement
        · rw [hu]
          exact spansWith_useStatement
        · exact hzero r hp hu
  | succ n ih =>
      cases r with
      | statement => exact spansWith_statement ih
      | exprStatement => exact spansWith_exprStatement ih
      | letStatement => exact spansWith_letStatement ih
      | returnStatement => exact spansWith_returnStatement ih
      | useStatement => exact spansWith_useStatement
      | funcStatement => exact spansWith_funcStatement ih
      | function pos => exact spansWith_function pos ih
      | params => exact spansWith_params (spansWith_paramNames [] ih)
      | paramNames found => exact spansWith_paramNames found ih
      | block => exact spansWith_block ih
      | blockRest start => exact spansWith_blockRest start ih
      | binary level => exact spansWith_binary level ih
      | binaryRest level left => exact spansWith_binaryRest level left ih
      | assignment level left => exact spansWith_assignment level left ih
      | unary => exact spansWith_unary ih
      | suffixed => exact spansWith_suffixed ih
      | suffixes e => exact spansWith_suffixes e ih
      | expressions stop => exact spansWith_expressions stop ih
      | primary => exact spansWith_primary ih
      | hashEntries => exact spansWith_hashEntries ih
      | hashKey => exact spansWith_hashKey ih
      | condition keyword => exact spansWith_condition keyword ih
      | conditional => exact spansWith_conditional ih
      | decorated => exact spansWith_decorated ih
      | declaration => exact spansWith_declaration ih

/-- What a rule that succeeds has read. -/
theorem spans_of_ok {finish : Position} {n : Nat} {r : Rule} {l rest : List Token} {a : r.Result}
    (hl : r.Starts l) (h : r.run finish n l = .ok a rest) :
  Spans finish r.least r.closes r.leaves l rest
  := by
  have := spansWith finish n r l hl
  unfold Ensures at this
  rwa [h] at this

/-- What a rule that fails has read. -/
theorem fails_of_error {finish : Position} {n : Nat} {r : Rule} {l rest : List Token}
    {e : SyntaxError} (hl : r.Starts l) (h : r.run finish n l = .error e rest) :
  Fails r.closes l rest
  := by
  have := spansWith finish n r l hl
  unfold Ensures at this
  rwa [h] at this

/-- Where no tokens are left, no rule leaves any. -/
theorem ensures_of_nil {finish : Position} {n : Nat} {r : Rule} (hl : r.Starts []) :
  Ensures (r.run finish n) [] (fun _ rest => rest = []) (· = [])
  := by
  apply (spansWith finish n r [] hl).mono
  · intro a rest h
    exact List.suffix_nil.mp h.suffix
  · intro rest h
    exact List.suffix_nil.mp h.suffix

end Rule

end Parse

end Scriptlet
