import Scriptlet.Proofs.Parsing.Simulation

/-!
# How far a rule reads

A rule with more fuel than its tokens and its rank call for comes to one end, however much fuel
it has: it is never out of fuel.  A token behind the others that marks the end of the source
makes no difference to it either, and no rule reads that token.  Both are said of two runs, one of
which has `tail` behind the tokens of the other: `Settles tail p q l`.
-/

namespace Scriptlet

namespace Parse

/-- Whether nothing stands behind the tokens, or the token that marks the end of the source. -/
def AtEnd (finish : Position) (tail : List Token) : Prop :=
  tail = [] ∨ tail = [⟨.eof, "", finish⟩]

/-- With `tail` behind the tokens, `q` does what `p` does without it and leaves `tail`, and neither
fails for lack of fuel. -/
def Settles {α : Type} (tail : List Token) (p q : Parse α) (l : List Token) : Prop :=
  match p l with
  | .ok a rest => q (l ++ tail) = .ok a (rest ++ tail)
  | .error e rest => e.flaw ≠ .tooDeep ∧ ∃ e', q (l ++ tail) = .error e' (rest ++ tail)
      ∧ e'.position = e.position ∧ (tail = [] → e' = e)

section

variable {α β : Type} {finish : Position} {tail l : List Token}

namespace AtEnd

/-- The kind of the first token is the same with the end of the source behind. -/
theorem kindOf_append (h : AtEnd finish tail) (l : List Token) :
  kindOf (l ++ tail) = kindOf l
  := by
  cases l with
  | nil => rcases h with rfl | rfl <;> rfl
  | cons t l => rfl

/-- The text of the first token is the same with the end of the source behind. -/
theorem wordOf_append (h : AtEnd finish tail) (l : List Token) :
  wordOf (l ++ tail) = wordOf l
  := by
  cases l with
  | nil => rcases h with rfl | rfl <;> rfl
  | cons t l => rfl

/-- The first token stands in the same place with the end of the source behind. -/
theorem hereOf_append (h : AtEnd finish tail) (l : List Token) :
  hereOf finish (l ++ tail) = hereOf finish l
  := by
  cases l with
  | nil => rcases h with rfl | rfl <;> rfl
  | cons t l => rfl

/-- The kind of the second token is the same with the end of the source behind. -/
theorem kindOf_tail_append (h : AtEnd finish tail) (l : List Token) :
  kindOf (l ++ tail).tail = kindOf l.tail
  := by
  cases l with
  | nil => rcases h with rfl | rfl <;> rfl
  | cons t l => exact h.kindOf_append l

/-- A semicolon in front is dropped in the same way with the end of the source behind. -/
theorem dropSemicolon_append (h : AtEnd finish tail) (l : List Token) :
  dropSemicolon (l ++ tail) = dropSemicolon l ++ tail
  := by
  unfold dropSemicolon
  rw [h.kindOf_append]
  split
  next hk =>
    cases l with
    | nil => cases hk
    | cons t l => rfl
  next => rfl

end AtEnd

/-- One step after the other. -/
theorem Settles.bind {x y : Parse β} {f g : β → Parse α} (hx : Settles tail x y l)
    (hf : ∀ b rest, x l = .ok b rest → Settles tail (f b) (g b) rest) :
  Settles tail (x >>= f) (y >>= g) l
  := by
  unfold Settles at hx
  cases hxl : x l with
  | ok b rest =>
      rw [hxl] at hx
      have hrest := hf b rest hxl
      unfold Settles at hrest ⊢
      rwa [bind_ok hxl, bind_ok hx]
  | error e rest =>
      rw [hxl] at hx
      obtain ⟨hflaw, e', hy, he'⟩ := hx
      unfold Settles
      rw [bind_error hxl]
      exact ⟨hflaw, e', bind_error hy, he'⟩

/-- A run that makes something at once needs no fuel. -/
theorem settles_pure (a : α) :
  Settles tail (pure a) (pure a) l
  := rfl

/-- A run that fails at once needs no fuel, unless it says that there was none. -/
theorem settles_throw {e : SyntaxError} (he : e.flaw ≠ .tooDeep) :
  Settles tail (throw e : Parse α) (throw e) l
  := ⟨he, e, rfl, rfl, fun _ => rfl⟩

section

variable (h : AtEnd finish tail)

include h

/-- A look at the kind of the first token. -/
theorem settles_kind {f g : TokenKind → Parse α} :
  Settles tail (kind >>= f) (kind >>= g) l ↔ Settles tail (f (kindOf l)) (g (kindOf l)) l
  := by
  unfold Settles
  rw [kind_bind, kind_bind, h.kindOf_append]

/-- A look at the kind of the second token. -/
theorem settles_secondKind {f g : TokenKind → Parse α} :
  Settles tail (secondKind >>= f) (secondKind >>= g) l
    ↔ Settles tail (f (kindOf l.tail)) (g (kindOf l.tail)) l
  := by
  unfold Settles
  rw [secondKind_bind, secondKind_bind, h.kindOf_tail_append]

/-- A look at where the first token stands. -/
theorem settles_here {f g : Position → Parse α} :
  Settles tail (here finish >>= f) (here finish >>= g) l
    ↔ Settles tail (f (hereOf finish l)) (g (hereOf finish l)) l
  := by
  unfold Settles
  rw [here_bind, here_bind, h.hereOf_append]

/-- A look at the text of the first token. -/
theorem settles_word {f g : String → Parse α} :
  Settles tail (word >>= f) (word >>= g) l ↔ Settles tail (f (wordOf l)) (g (wordOf l)) l
  := by
  unfold Settles
  rw [word_bind, word_bind, h.wordOf_append]

/-- An error that is reported where the first token stands needs no fuel. -/
theorem settles_fail {flaw : SyntaxFlaw} (hflaw : flaw ≠ .tooDeep) :
  Settles tail (fail finish flaw : Parse α) (fail finish flaw) l
  := by
  unfold fail
  rw [settles_here h]
  exact settles_throw hflaw

/-- The error that something else is called for needs no fuel. -/
theorem settles_unexpected (what : Expectation) :
  Settles tail (unexpected finish what : Parse α) (unexpected finish what) l
  := by
  cases l with
  | cons t l => exact settles_fail (l := t :: l) h (by rintro ⟨⟩)
  | nil =>
      rcases h with rfl | rfl
      · exact ⟨by rintro ⟨⟩, _, rfl, rfl, fun _ => rfl⟩
      · exact ⟨by rintro ⟨⟩, _, rfl, rfl, by rintro ⟨⟩⟩

/-- A step over a semicolon if there is one. -/
theorem settles_skipSemicolon {f g : Unit → Parse α} :
  Settles tail (skipSemicolon >>= f) (skipSemicolon >>= g) l
    ↔ Settles tail (f ()) (g ()) (dropSemicolon l)
  := by
  unfold Settles
  rw [skipSemicolon_bind, skipSemicolon_bind, h.dropSemicolon_append]

/-- The error that no expression stands there needs no fuel. -/
theorem settles_noExpression :
  Settles tail (noExpression finish : Parse α) (noExpression finish) l
  := by
  unfold noExpression
  rw [settles_word h, settles_kind h]
  split
  · split
    · exact settles_fail h (by rintro ⟨⟩)
    · exact settles_fail h (by rintro ⟨⟩)
  · exact settles_fail h (by rintro ⟨⟩)
  · exact settles_fail h (by rintro ⟨⟩)

end

/-- A step over the first token. -/
theorem settles_advance {t : Token} {f g : Unit → Parse α} :
  Settles tail (advance >>= f) (advance >>= g) (t :: l) ↔ Settles tail (f ()) (g ()) l
  := Iff.rfl

end

/-! ### With fuel for rules of less than a rank -/

/-- Whether `k` units of fuel are enough, at the tokens `l`, for rules of less than rank `j`. -/
structure Spare (finish : Position) (tail : List Token) (k j : Nat) (l : List Token) : Prop where
  atEnd : AtEnd finish tail
  fuel : 10 * l.length + j ≤ k

/-- Whether all rules that `k` units of fuel are enough for come to the same with `n` and with
`n'` units. -/
def SettlesWith (finish : Position) (tail : List Token) (k n n' : Nat) : Prop :=
  ∀ (r : Rule) (l : List Token), r.Starts l → Spare finish tail k (r.rank + 1) l →
    Settles tail (r.run finish n) (r.run finish n') l

namespace Spare

variable {finish : Position} {tail l m : List Token} {k j n n' : Nat} {t : Token} {α : Type}

/-- What is left behind a token is enough for any rule. -/
theorem behind (h : Spare finish tail k j (t :: l)) :
  Spare finish tail k 10 l
  where
  atEnd := h.atEnd
  fuel := by
    have := h.fuel
    rw [List.length_cons] at this
    omega

/-- What is enough for rules of less than a rank is enough for those of less than a lower one. -/
theorem mono (h : Spare finish tail k j l) {i : Nat} (hi : i ≤ j) :
  Spare finish tail k i l
  where
  atEnd := h.atEnd
  fuel := by
    have := h.fuel
    omega

/-- The error that something else is called for, whatever would come behind it. -/
theorem unexpected {β : Type} (h : Spare finish tail k j l) (what : Expectation)
    (f g : β → Parse α) :
  Settles tail (Parse.unexpected finish what >>= f) (Parse.unexpected finish what >>= g) l
  := by
  refine (settles_unexpected h.atEnd what).bind fun b rest hrun => ?_
  have hnot : Ensures (Parse.unexpected (α := β) finish what) l (fun _ _ => False) fun _ => True :=
    by simp
  exact absurd hrun (hnot.not_ok b rest)

/-- Behind an expected token there is fuel for any rule. -/
theorem expect (h : Spare finish tail k j l) {wanted : TokenKind} (hw : wanted ≠ .eof)
    {what : Expectation} {p q : Parse α}
    (hpq : ∀ t l', l = t :: l' → Spare finish tail k 10 l' → Settles tail p q l') :
  Settles tail (Parse.expect finish wanted what >>= fun _ => p)
    (Parse.expect finish wanted what >>= fun _ => q) l
  := by
  unfold Parse.expect
  rw [bind_assoc, bind_assoc, settles_kind h.atEnd]
  split
  next hk =>
    cases l with
    | nil => exact absurd hk.symm hw
    | cons t l => exact hpq t l rfl h.behind
  next => exact h.unexpected what _ _

/-- Behind a name there is fuel for any rule. -/
theorem identifier (h : Spare finish tail k j l) {what : Expectation} {f g : String → Parse α}
    (hfg : ∀ t l', l = t :: l' → Spare finish tail k 10 l' →
      Settles tail (f t.text) (g t.text) l') :
  Settles tail (Parse.identifier finish what >>= f) (Parse.identifier finish what >>= g) l
  := by
  unfold Parse.identifier
  rw [bind_assoc, bind_assoc, settles_kind h.atEnd]
  split
  next hk =>
    cases l with
    | nil => cases hk
    | cons t l =>
        rw [bind_assoc, bind_assoc, settles_word h.atEnd]
        exact hfg t l rfl h.behind
  next => exact h.unexpected what _ _

/-- Behind a comma there is fuel for any rule. -/
theorem skipComma (h : Spare finish tail k j l) {f g : Bool → Parse α}
    (hyes : ∀ t l', l = t :: l' → Spare finish tail k 10 l' → Settles tail (f true) (g true) l')
    (hno : Settles tail (f false) (g false) l) :
  Settles tail (Parse.skipComma >>= f) (Parse.skipComma >>= g) l
  := by
  unfold Parse.skipComma
  rw [bind_assoc, bind_assoc, settles_kind h.atEnd]
  split
  next hk =>
    cases l with
    | nil => cases hk
    | cons t l => exact hyes t l rfl h.behind
  next => exact hno

/-- A rule that there is fuel for. -/
theorem call (h : Spare finish tail k j l) (ih : SettlesWith finish tail k n n') (r : Rule)
    (hr : Nat.blt r.rank j = true) (hs : r.Starts l) :
  Settles tail (r.run finish n) (r.run finish n') l
  := ih r l hs (h.mono (by simpa [Nat.succ_le_iff] using hr))

/-- A rule that there is fuel for, and then what becomes of its result: behind it there is fuel for
any rule if it has read something, and otherwise if there was. -/
theorem bind (h : Spare finish tail k j l) (ih : SettlesWith finish tail k n n') (r : Rule)
    (hr : (Nat.blt r.rank j && (Nat.blt 0 r.least || j == 10)) = true) (hs : r.Starts l)
    {f g : r.Result → Parse α}
    (hf : ∀ a rest, Spare finish tail k 10 rest → Settles tail (f a) (g a) rest) :
  Settles tail (r.run finish n >>= f) (r.run finish n' >>= g) l
  := by
  simp only [Bool.and_eq_true, Bool.or_eq_true, beq_iff_eq, Nat.blt_eq] at hr
  refine (ih r l hs (h.mono hr.1)).bind fun a rest hrun => hf a rest ⟨h.atEnd, ?_⟩
  have hleast := (Rule.spans_of_ok hs hrun).least
  have := h.fuel
  omega

end Spare

/-! ### The rules -/

namespace Rule

variable {finish : Position} {tail l : List Token} {k n n' : Nat}

section

variable (ih : SettlesWith finish tail k n n')

include ih

/-- A statement is tried as one that its keyword names, as a block or as an expression, all of lower
rank. -/
theorem settles_statement (h : Spare finish tail k 7 l) :
  Settles tail (Parse.statement finish (n + 1)) (Parse.statement finish (n' + 1)) l
  := by
  simp only [Parse.statement, settles_kind h.atEnd]
  split
  next hk => exact h.call ih letStatement rfl hk
  next hk => exact h.call ih returnStatement rfl hk
  next hk => exact h.call ih useStatement rfl hk
  next =>
    rw [settles_here h.atEnd]
    exact h.bind ih block rfl trivial fun _ _ _ => settles_pure _
  next hk =>
    rw [settles_secondKind h.atEnd]
    split
    next hname => exact h.call ih funcStatement rfl ⟨hk, hname⟩
    next => exact h.call ih exprStatement rfl trivial
  next => exact h.call ih exprStatement rfl trivial

/-- An expression statement is tried as an expression. -/
theorem settles_exprStatement (h : Spare finish tail k 6 l) :
  Settles tail (Parse.exprStatement finish (n + 1)) (Parse.exprStatement finish (n' + 1)) l
  := by
  simp only [Parse.exprStatement, settles_here h.atEnd]
  refine h.bind ih (binary _) rfl trivial fun e rest h => ?_
  rw [settles_skipSemicolon h.atEnd]
  exact settles_pure _

/-- The value of a definition is read behind three tokens. -/
theorem settles_letStatement (h : Spare finish tail k 1 l) (hl : letStatement.Starts l) :
  Settles tail (Parse.letStatement finish (n + 1)) (Parse.letStatement finish (n' + 1)) l
  := by
  cases l with
  | nil => cases hl
  | cons t l =>
      simp only [Parse.letStatement, settles_here h.atEnd, settles_advance]
      refine h.behind.identifier fun _ l _ h => h.expect (by decide) fun _ l _ h => ?_
      refine h.bind ih (binary _) rfl trivial fun e rest h => ?_
      rw [settles_skipSemicolon h.atEnd]
      exact settles_pure _

/-- What a return hands back is read behind its keyword. -/
theorem settles_returnStatement (h : Spare finish tail k 1 l) (hl : returnStatement.Starts l) :
  Settles tail (Parse.returnStatement finish (n + 1)) (Parse.returnStatement finish (n' + 1)) l
  := by
  cases l with
  | nil => cases hl
  | cons t l =>
      simp only [Parse.returnStatement, settles_here h.atEnd, settles_advance,
        settles_kind h.atEnd]
      split
      case h_4 =>
        refine h.behind.bind ih (binary _) rfl trivial fun e rest h => ?_
        rw [settles_skipSemicolon h.atEnd]
        exact settles_pure _
      all_goals
        rw [settles_skipSemicolon h.atEnd]
        exact settles_pure _

/-- A named function is read behind its keyword. -/
theorem settles_funcStatement (h : Spare finish tail k 1 l) (hl : funcStatement.Starts l) :
  Settles tail (Parse.funcStatement finish (n + 1)) (Parse.funcStatement finish (n' + 1)) l
  := by
  cases l with
  | nil => cases hl.1
  | cons t l =>
      simp only [Parse.funcStatement, settles_here h.atEnd, settles_advance,
        settles_word h.atEnd]
      refine h.behind.bind ih (function _) rfl trivial fun e rest h => ?_
      rw [settles_skipSemicolon h.atEnd]
      exact settles_pure _

/-- The parameters of a function are read behind a parenthesis, and its body behind another one. -/
theorem settles_function (pos : Position) (h : Spare finish tail k 1 l) :
  Settles tail (Parse.function finish (n + 1) pos) (Parse.function finish (n' + 1) pos) l
  := by
  have hrest {j : Nat} {l : List Token} (name : Option String) (h : Spare finish tail k j l) :
    Settles tail
      (do
        expect finish .leftParen .paramsStart
        let names ← Parse.params finish n
        expect finish .rightParen .paramsEnd
        return Expr.func pos name names (← Parse.block finish n))
      (do
        expect finish .leftParen .paramsStart
        let names ← Parse.params finish n'
        expect finish .rightParen .paramsEnd
        return Expr.func pos name names (← Parse.block finish n')) l
    := h.expect (by decide) fun _ _ _ h => h.bind ih params rfl trivial fun _ _ h =>
      h.expect (by decide) fun _ _ _ h => h.bind ih block rfl trivial fun _ _ _ => settles_pure _
  simp only [Parse.function, settles_kind h.atEnd]
  split
  · simp only [map_eq_pure_bind, bind_assoc, pure_bind]
    exact h.identifier fun u _ _ h => hrest (some u.text) h
  · exact hrest none h

/-- More parameters are read behind a name and a comma. -/
theorem settles_paramNames (found : List String) (h : Spare finish tail k 1 l) :
  Settles tail (Parse.paramNames finish (n + 1) found) (Parse.paramNames finish (n' + 1) found) l
  := by
  simp only [Parse.paramNames, settles_here h.atEnd]
  refine h.identifier fun u l _ h => ?_
  split
  · exact settles_throw (by rintro ⟨⟩)
  · exact h.skipComma (fun _ _ _ h => h.call ih (paramNames _) rfl trivial) (settles_pure _)

/-- The statements of a block are read behind its brace. -/
theorem settles_block (h : Spare finish tail k 1 l) :
  Settles tail (Parse.block finish (n + 1)) (Parse.block finish (n' + 1)) l
  := by
  simp only [Parse.block, settles_here h.atEnd]
  exact h.expect (by decide) fun _ _ _ h => h.call ih (blockRest _) rfl trivial

/-- The rest of a block is tried as a statement, which reads a token if it succeeds. -/
theorem settles_blockRest (start : Position) (h : Spare finish tail k 8 l) :
  Settles tail (Parse.blockRest finish (n + 1) start) (Parse.blockRest finish (n' + 1) start) l
  := by
  simp only [Parse.blockRest, settles_kind h.atEnd]
  split
  next hk =>
    cases l with
    | nil => cases hk
    | cons t l => exact settles_advance.mpr (settles_pure _)
  next => exact settles_throw (by rintro ⟨⟩)
  next hk =>
    cases l with
    | nil => cases hk
    | cons t l => exact settles_advance.mpr (h.behind.call ih (blockRest _) rfl trivial)
  next =>
    exact h.bind ih statement rfl trivial fun _ _ h =>
      h.bind ih (blockRest _) rfl trivial fun _ _ _ => settles_pure _

/-- An expression is tried as an operand, which reads a token if it succeeds. -/
theorem settles_binary (level : Nat) (h : Spare finish tail k 5 l) :
  Settles tail (Parse.binary finish (n + 1) level) (Parse.binary finish (n' + 1) level) l
  := h.bind ih unary rfl trivial fun _ _ h => h.call ih (binaryRest _ _) rfl trivial

/-- The right side of an operator is read behind it. -/
theorem settles_binaryRest (level : Nat) (left : Expr) (h : Spare finish tail k 2 l) :
  Settles tail (Parse.binaryRest finish (n + 1) level left)
    (Parse.binaryRest finish (n' + 1) level left) l
  := by
  simp only [Parse.binaryRest, settles_kind h.atEnd]
  split
  next hk =>
    split
    · exact settles_pure _
    · exact h.call ih (assignment _ _) rfl hk
  next =>
    cases hop : BinaryOp.ofToken? (kindOf l) with
    | none => exact settles_pure _
    | some op =>
        simp only
        split
        · exact settles_pure _
        · cases l with
          | nil => cases hop
          | cons t l =>
              rw [settles_here h.atEnd, settles_advance]
              exact h.behind.bind ih (binary _) rfl trivial fun _ _ h =>
                h.call ih (binaryRest _ _) rfl trivial

/-- The value of an assignment is read behind its sign. -/
theorem settles_assignment (level : Nat) (left : Expr) (h : Spare finish tail k 1 l)
    (hl : (assignment level left).Starts l) :
  Settles tail (Parse.assignment finish (n + 1) level left)
    (Parse.assignment finish (n' + 1) level left) l
  := by
  cases l with
  | nil => cases hl
  | cons t l =>
      simp only [Parse.assignment, settles_here h.atEnd, settles_advance]
      split
      · exact h.behind.bind ih (binary _) rfl trivial fun _ _ h =>
          h.call ih (binaryRest _ _) rfl trivial
      · exact settles_throw (by rintro ⟨⟩)

/-- What has no prefix is tried as an operand, and what has one is read behind it. -/
theorem settles_unary (h : Spare finish tail k 4 l) :
  Settles tail (Parse.unary finish (n + 1)) (Parse.unary finish (n' + 1)) l
  := by
  simp only [Parse.unary, settles_here h.atEnd, settles_kind h.atEnd]
  cases l with
  | nil => exact h.call ih suffixed rfl trivial
  | cons t l =>
      split
      next => exact h.call ih suffixed rfl trivial
      next =>
        rw [settles_advance]
        exact h.behind.bind ih (binary _) rfl trivial fun _ _ _ => settles_pure _
      next =>
        rw [settles_advance, settles_here h.atEnd]
        exact h.behind.identifier fun _ _ _ _ => settles_pure _
      next =>
        rw [settles_advance]
        exact h.behind.bind ih unary rfl trivial fun _ _ _ => settles_pure _

/-- What stands in front of calls and indices is tried as an operand. -/
theorem settles_suffixed (h : Spare finish tail k 3 l) :
  Settles tail (Parse.suffixed finish (n + 1)) (Parse.suffixed finish (n' + 1)) l
  := h.bind ih primary rfl trivial fun _ _ h => h.call ih (suffixes _) rfl trivial

/-- Arguments and an index are read behind their parenthesis and their bracket. -/
theorem settles_suffixes (e : Expr) (h : Spare finish tail k 1 l) :
  Settles tail (Parse.suffixes finish (n + 1) e) (Parse.suffixes finish (n' + 1) e) l
  := by
  simp only [Parse.suffixes, settles_here h.atEnd, settles_kind h.atEnd]
  cases l with
  | nil => exact settles_pure _
  | cons t l =>
      split
      next =>
        rw [settles_advance]
        exact h.behind.bind ih (expressions _) rfl (.inl rfl) fun _ _ h =>
          h.expect (by decide) fun _ _ _ h => h.call ih (suffixes _) rfl trivial
      next =>
        rw [settles_advance]
        exact h.behind.bind ih (binary _) rfl trivial fun _ _ h =>
          h.expect (by decide) fun _ _ _ h => h.call ih (suffixes _) rfl trivial
      next => exact settles_pure _

/-- A list is tried as an expression, and its rest is read behind a comma. -/
theorem settles_expressions (stop : TokenKind) (h : Spare finish tail k 6 l)
    (hl : (expressions stop).Starts l) :
  Settles tail (Parse.expressions finish (n + 1) stop) (Parse.expressions finish (n' + 1) stop) l
  := by
  simp only [Parse.expressions, settles_kind h.atEnd]
  split
  · exact settles_pure _
  · refine h.bind ih (binary _) rfl trivial fun _ _ h => ?_
    exact h.skipComma
      (fun _ _ _ h => h.bind ih (expressions stop) rfl hl fun _ _ _ => settles_pure _)
      (settles_pure _)

/-- Most operands are read behind a token, and the others are tried as rules of rank one. -/
theorem settles_primary (h : Spare finish tail k 2 l) :
  Settles tail (Parse.primary finish (n + 1)) (Parse.primary finish (n' + 1)) l
  := by
  simp only [Parse.primary, settles_here h.atEnd, settles_kind h.atEnd]
  cases l with
  | nil => exact settles_noExpression h.atEnd
  | cons t l =>
      split
      case h_1 | h_2 | h_6 =>
        rw [settles_word h.atEnd, settles_advance]
        exact settles_pure _
      case h_3 | h_4 | h_5 => exact settles_advance.mpr (settles_pure _)
      case h_7 =>
        rw [settles_advance]
        exact h.behind.bind ih (binary _) rfl trivial fun _ _ h =>
          h.expect (by decide) fun _ _ _ _ => settles_pure _
      case h_8 =>
        rw [settles_advance]
        exact h.behind.bind ih (expressions _) rfl (.inr rfl) fun _ _ h =>
          h.expect (by decide) fun _ _ _ _ => settles_pure _
      case h_9 =>
        rw [settles_advance]
        exact h.behind.bind ih hashEntries rfl trivial fun _ _ h =>
          h.expect (by decide) fun _ _ _ _ => settles_pure _
      case h_10 hk => exact h.call ih conditional rfl hk
      case h_11 =>
        rw [settles_advance]
        exact h.behind.bind ih (condition _) rfl trivial fun _ _ h =>
          h.bind ih block rfl trivial fun _ _ _ => settles_pure _
      case h_12 =>
        rw [settles_advance]
        exact h.behind.call ih (function _) rfl trivial
      case h_13 hk => exact h.call ih decorated rfl hk
      case h_14 => exact settles_noExpression h.atEnd

/-- Entries are tried as a key, and a value is read behind its colon. -/
theorem settles_hashEntries (h : Spare finish tail k 7 l) :
  Settles tail (Parse.hashEntries finish (n + 1)) (Parse.hashEntries finish (n' + 1)) l
  := by
  simp only [Parse.hashEntries, settles_kind h.atEnd]
  split
  · exact settles_pure _
  · refine h.bind ih hashKey rfl trivial fun _ _ h => h.expect (by decide) fun _ _ _ h => ?_
    refine h.bind ih (binary _) rfl trivial fun _ _ h => ?_
    exact h.skipComma (fun _ _ _ h => h.bind ih hashEntries rfl trivial fun _ _ _ => settles_pure _)
      (settles_pure _)

/-- A key that is no bare name is tried as an expression. -/
theorem settles_hashKey (h : Spare finish tail k 6 l) :
  Settles tail (Parse.hashKey finish (n + 1)) (Parse.hashKey finish (n' + 1)) l
  := by
  simp only [Parse.hashKey, settles_kind h.atEnd, settles_secondKind h.atEnd]
  split
  next hk =>
    cases l with
    | nil => cases hk.1
    | cons t l =>
        rw [settles_here h.atEnd, settles_word h.atEnd, settles_advance]
        exact settles_pure _
  next => exact h.call ih (binary _) rfl trivial

/-- A condition is read behind a parenthesis. -/
theorem settles_condition (keyword : String) (h : Spare finish tail k 1 l) :
  Settles tail (Parse.condition finish (n + 1) keyword) (Parse.condition finish (n' + 1) keyword) l
  := h.expect (by decide) fun _ _ _ h => h.bind ih (binary _) rfl trivial fun _ _ h =>
    h.expect (by decide) fun _ _ _ _ => settles_pure _

/-- The branches of a conditional are read behind its condition. -/
theorem settles_conditional (h : Spare finish tail k 1 l) (hl : conditional.Starts l) :
  Settles tail (Parse.conditional finish (n + 1)) (Parse.conditional finish (n' + 1)) l
  := by
  cases l with
  | nil => cases hl
  | cons t l =>
      simp only [Parse.conditional, settles_here h.atEnd, settles_advance]
      refine h.behind.bind ih (condition _) rfl trivial fun _ _ h =>
        h.bind ih block rfl trivial fun _ rest h => ?_
      rw [settles_kind h.atEnd]
      cases rest with
      | nil => exact settles_pure _
      | cons u rest =>
          split
          · rw [settles_advance, settles_kind h.atEnd]
            split
            next hk =>
              rw [settles_here h.atEnd]
              exact h.behind.bind ih conditional rfl hk fun _ _ _ => settles_pure _
            next => exact h.behind.bind ih block rfl trivial fun _ _ _ => settles_pure _
          · exact settles_pure _

/-- What is decorated is read behind the name of the decorator. -/
theorem settles_decorated (h : Spare finish tail k 1 l) (hl : decorated.Starts l) :
  Settles tail (Parse.decorated finish (n + 1)) (Parse.decorated finish (n' + 1)) l
  := by
  cases l with
  | nil => cases hl
  | cons t l =>
      simp only [Parse.decorated, settles_here h.atEnd, settles_advance]
      refine h.behind.identifier fun _ l _ h => ?_
      rw [settles_here h.atEnd, settles_kind h.atEnd]
      split
      next hk =>
        cases l with
        | nil => cases hk
        | cons u l =>
            rw [settles_advance]
            exact h.behind.bind ih (expressions _) rfl (.inl rfl) fun _ _ h =>
              h.expect (by decide) fun _ _ _ h =>
                h.bind ih declaration rfl trivial fun _ _ _ => settles_pure _
      next => exact h.bind ih declaration rfl trivial fun _ _ _ => settles_pure _

/-- A declaration is tried as the one that its first token names. -/
theorem settles_declaration (h : Spare finish tail k 2 l) :
  Settles tail (Parse.declaration finish (n + 1)) (Parse.declaration finish (n' + 1)) l
  := by
  simp only [Parse.declaration, settles_kind h.atEnd]
  split
  next hk => exact h.call ih letStatement rfl hk
  next hk =>
    rw [settles_secondKind h.atEnd]
    split
    next hname => exact h.call ih funcStatement rfl ⟨hk, hname⟩
    next => exact settles_fail h.atEnd (by rintro ⟨⟩)
  next hk =>
    rw [settles_here h.atEnd]
    exact h.bind ih decorated rfl hk fun _ _ _ => settles_pure _
  next => exact settles_fail h.atEnd (by rintro ⟨⟩)

end

/-- An import needs no fuel. -/
theorem settles_useStatement (h : AtEnd finish tail) (hl : useStatement.Starts l) :
  Settles tail (Parse.useStatement finish) (Parse.useStatement finish) l
  := by
  cases l with
  | nil => cases hl
  | cons t l =>
      simp only [Parse.useStatement, settles_here h, settles_advance, settles_kind h]
      cases l with
      | nil => exact settles_unexpected h _
      | cons u l =>
          split
          case h_3 => exact settles_unexpected h _
          all_goals
            rw [settles_word h, settles_advance, settles_skipSemicolon h]
            exact settles_pure _

/-- Parameters are read as names unless a parenthesis closes. -/
theorem settles_params (h : Spare finish tail k 1 l)
    (hnames : Settles tail (Parse.paramNames finish n []) (Parse.paramNames finish n' []) l) :
  Settles tail (Parse.params finish n) (Parse.params finish n') l
  := by
  unfold Parse.params
  rw [settles_kind h.atEnd]
  split
  · exact settles_pure _
  · exact hnames

end Rule

/-- Rules that there is fuel for come to the same end. -/
theorem settlesWith {finish : Position} {tail : List Token} {k n n' : Nat} (hn : k ≤ n)
    (hn' : k ≤ n') :
  SettlesWith finish tail k n n'
  := by
  induction k generalizing n n' with
  | zero =>
      intro r l _ h
      have := h.fuel
      omega
  | succ k ih =>
      obtain ⟨n, rfl⟩ : ∃ m, n = m + 1 := ⟨n - 1, by omega⟩
      obtain ⟨n', rfl⟩ : ∃ m, n' = m + 1 := ⟨n' - 1, by omega⟩
      have ih := ih (Nat.le_of_succ_le_succ hn) (Nat.le_of_succ_le_succ hn')
      intro r l hr hspare
      have h : Spare finish tail k r.rank l := ⟨hspare.atEnd, Nat.le_of_succ_le_succ hspare.fuel⟩
      cases r with
      | statement => exact Rule.settles_statement ih h
      | exprStatement => exact Rule.settles_exprStatement ih h
      | letStatement => exact Rule.settles_letStatement ih h hr
      | returnStatement => exact Rule.settles_returnStatement ih h hr
      | useStatement => exact Rule.settles_useStatement h.atEnd hr
      | funcStatement => exact Rule.settles_funcStatement ih h hr
      | function pos => exact Rule.settles_function ih pos h
      | params => exact Rule.settles_params h (Rule.settles_paramNames ih [] h)
      | paramNames found => exact Rule.settles_paramNames ih found h
      | block => exact Rule.settles_block ih h
      | blockRest start => exact Rule.settles_blockRest ih start h
      | binary level => exact Rule.settles_binary ih level h
      | binaryRest level left => exact Rule.settles_binaryRest ih level left h
      | assignment level left => exact Rule.settles_assignment ih level left h hr
      | unary => exact Rule.settles_unary ih h
      | suffixed => exact Rule.settles_suffixed ih h
      | suffixes e => exact Rule.settles_suffixes ih e h
      | expressions stop => exact Rule.settles_expressions ih stop h hr
      | primary => exact Rule.settles_primary ih h
      | hashEntries => exact Rule.settles_hashEntries ih h
      | hashKey => exact Rule.settles_hashKey ih h
      | condition keyword => exact Rule.settles_condition ih keyword h
      | conditional => exact Rule.settles_conditional ih h hr
      | decorated => exact Rule.settles_decorated ih h hr
      | declaration => exact Rule.settles_declaration ih h

/-- What is enough fuel for a rule at the tokens `l`. -/
def enough (l : List Token) : Nat :=
  10 * l.length + 10

/-- A rule with enough fuel comes to one end, with and without the token that marks the end of the
source behind the others. -/
theorem settles_of_enough {finish : Position} {tail l : List Token} (htail : AtEnd finish tail)
    {n n' : Nat} (hn : enough l ≤ n) (hn' : enough l ≤ n') {r : Rule} (hr : r.Starts l) :
  Settles tail (r.run finish n) (r.run finish n') l
  := by
  refine settlesWith hn hn' r l hr ⟨htail, ?_⟩
  have hrank : r.rank ≤ 8 := by
    cases r <;> exact Nat.le_of_ble_eq_true rfl
  unfold enough
  omega

section

variable {finish : Position} {l rest : List Token} {n n' : Nat} {r : Rule} {e : SyntaxError}

/-- All runs of a rule with enough fuel are the same. -/
theorem run_eq_of_enough (hr : r.Starts l) (hn : enough l ≤ n) (hn' : enough l ≤ n') :
  r.run finish n l = r.run finish n' l
  := by
  have h : Settles [] (r.run finish n) (r.run finish n') l :=
    settles_of_enough (.inl rfl) hn hn' hr
  unfold Settles at h
  rw [List.append_nil] at h
  cases hrun : r.run finish n l with
  | ok a rest =>
      rw [hrun] at h
      rw [h, List.append_nil]
  | error e rest =>
      rw [hrun] at h
      obtain ⟨-, e', hrun', -, he⟩ := h
      rw [hrun', List.append_nil, he rfl]

/-- With enough fuel, no rule fails for lack of it. -/
theorem flaw_ne_tooDeep (hr : r.Starts l) (hn : enough l ≤ n)
    (h : r.run finish n l = .error e rest) :
  e.flaw ≠ .tooDeep
  := by
  have hsettles : Settles [] (r.run finish n) (r.run finish n) l :=
    settles_of_enough (.inl rfl) hn hn hr
  unfold Settles at hsettles
  rw [h] at hsettles
  exact hsettles.1

end

end Parse

end Scriptlet
