import Scriptlet.Proofs.Lexing.Spelling
import Scriptlet.Proofs.Parsing.Spans
import Scriptlet.Proofs.Parsing.Statements

/-!
# Parsing makes well-formed trees

Whatever a rule makes of tokens that are spelled as they have to be can be written, and the tokens
that it leaves are spelled as they have to be.
-/

namespace Scriptlet

open Parse

namespace Spelled

variable {finish : Position} {l : List Token}

/-- Behind a token that is no decorator, the tokens are spelled as before. -/
theorem tail (h : Spelled l) (hl : kindOf l ≠ .decorator) :
  Spelled l.tail
  := by
  cases h with
  | nil => exact .nil
  | plain _ _ h => exact h
  | decorator hdec => exact absurd hdec hl

/-- The text of an identifier is a name. -/
theorem name (h : Spelled l) (hl : kindOf l = .identifier) :
  IsName (wordOf l)
  := by
  cases h with
  | nil => cases hl
  | plain _ hname _ => exact hname hl
  | decorator hdec =>
      rw [kindOf_cons, hdec] at hl
      cases hl

/-- The token behind a decorator is a word, and behind it the tokens are spelled as before. -/
theorem decorator_inv (h : Spelled l) (hl : kindOf l = .decorator) :
  IsWord (wordOf l.tail) ∧ Spelled l.tail.tail
  := by
  cases h with
  | nil => cases hl
  | plain hdec => exact absurd hl hdec
  | decorator _ _ hword h => exact ⟨hword, h⟩

/-- Without a semicolon in front, the tokens are spelled as before. -/
theorem dropSemicolon (h : Spelled l) :
  Spelled (dropSemicolon l)
  := by
  unfold Parse.dropSemicolon
  split
  next hk => exact h.tail (by simp [hk])
  next => exact h

variable {wanted : TokenKind} {what : Expectation}

/-- Behind an expected token that is no decorator, the tokens are spelled as before. -/
theorem expect (h : Spelled l) (hw : wanted ≠ .decorator) {Q : Unit → List Token → Prop}
    (hQ : Spelled l.tail → Q () l.tail) :
  Ensures (Parse.expect finish wanted what) l Q (fun _ => True)
  := by
  rw [ensures_expect]
  split
  next hk => exact hQ (h.tail (by rwa [hk]))
  next => trivial

/-- An identifier gives a name. -/
theorem identifier (h : Spelled l) {Q : String → List Token → Prop}
    (hQ : IsName (wordOf l) → Spelled l.tail → Q (wordOf l) l.tail) :
  Ensures (Parse.identifier finish what) l Q (fun _ => True)
  := by
  rw [ensures_identifier]
  split
  next hk => exact hQ (h.name hk) (h.tail (by simp [hk]))
  next => trivial

/-- Behind a comma or in front of what is none, the tokens are spelled as before. -/
theorem skipComma (h : Spelled l) {Q : Bool → List Token → Prop}
    (hQ : ∀ b rest, Spelled rest → Q b rest) :
  Ensures Parse.skipComma l Q (fun _ => True)
  := by
  rw [ensures_skipComma]
  split
  next hk => exact hQ _ _ (h.tail (by simp [hk]))
  next => exact hQ _ _ h

end Spelled

namespace Parse

variable {finish : Position} {n : Nat} {l : List Token}

namespace Rule

/-- What a rule takes for granted of what it goes on with. -/
def Given : Rule → Prop
  | binaryRest _ left | assignment _ left => left.Formed
  | suffixes e => e.Formed
  | paramNames found => (∀ x ∈ found, IsName x) ∧ found.Nodup
  | _ => True

/-- What holds of what a rule makes of tokens. -/
def Makes : (r : Rule) → List Token → r.Result → Prop
  | statement, _, s | exprStatement, _, s | returnStatement, _, s | useStatement, _, s =>
    Stmt.Formed s
  | letStatement, _, s | funcStatement, _, s | declaration, _, s => Stmt.IsDeclaration s
  | function _, l, e => Expr.Formed e ∧ (kindOf l = .identifier → Expr.anonymous e = false)
  | params, _, names | paramNames _, _, names => (∀ x ∈ names, IsName x) ∧ names.Nodup
  | block, _, ss | blockRest _, _, ss => Stmt.AllFormed ss
  | expressions _, _, es => Expr.AllFormed es
  | hashEntries, _, entries => Expr.EntriesFormed entries
  | decorated, _, e => ∀ pos, Stmt.IsDeclaration (.expr pos e)
  | binary _, _, e | binaryRest _ _, _, e | assignment _ _, _, e | unary, _, e | suffixed, _, e
  | suffixes _, _, e | primary, _, e | hashKey, _, e | condition _, _, e | conditional, _, e =>
    Expr.Formed e

/-- What a rule makes of tokens that are spelled as they have to be can be written. -/
def MakesFormed (finish : Position) (n : Nat) (r : Rule) : Prop :=
  ∀ l, Spelled l → r.Starts l → r.Given →
    Ensures (r.run finish n) l (fun a rest => r.Makes l a ∧ Spelled rest) (fun _ => True)

/-- A rule, and what is made of its result. -/
theorem MakesFormed.bind {r : Rule} (hr : MakesFormed finish n r) (hl : Spelled l)
    (hs : r.Starts l) (hg : r.Given) {Q : r.Result → List Token → Prop}
    (hQ : ∀ a rest, r.Makes l a → Spelled rest → Q a rest) :
  Ensures (r.run finish n) l Q (fun _ => True)
  := by
  apply (hr l hl hs hg).mono
  · rintro a rest ⟨ha, hrest⟩
    exact hQ a rest ha hrest
  · exact fun _ _ => trivial

section

variable (ih : ∀ r, MakesFormed finish n r)

include ih

/-- A statement is what the rule that its first token calls for makes. -/
theorem formed_statement :
  MakesFormed finish (n + 1) statement
  := by
  intro l hl _ _
  show Ensures (Parse.statement finish (n + 1)) l _ _
  simp only [Parse.statement, ensures_bind, ensures_kind]
  split
  next hk =>
    apply (ih letStatement).bind hl hk trivial
    exact fun s rest hs hrest => ⟨Stmt.IsDeclaration.formed hs, hrest⟩
  next hk => exact ih returnStatement l hl hk trivial
  next hk => exact ih useStatement l hl hk trivial
  next hk =>
    simp only [ensures_bind, ensures_here, ensures_pure]
    apply (ih block).bind hl trivial trivial
    exact fun body rest hbody hrest => ⟨hbody, hrest⟩
  next hk =>
    simp only [ensures_bind, ensures_secondKind, ensures_ite]
    split
    next hname =>
      apply (ih funcStatement).bind hl ⟨hk, hname⟩ trivial
      exact fun s rest hs hrest => ⟨Stmt.IsDeclaration.formed hs, hrest⟩
    next => exact ih exprStatement l hl trivial trivial
  next => exact ih exprStatement l hl trivial trivial

/-- An expression that can be written can be written as a statement. -/
theorem formed_exprStatement :
  MakesFormed finish (n + 1) exprStatement
  := by
  intro l hl _ _
  show Ensures (Parse.exprStatement finish (n + 1)) l _ _
  simp only [Parse.exprStatement, ensures_bind, ensures_here, ensures_skipSemicolon,
    ensures_pure]
  apply (ih (binary _)).bind hl trivial trivial
  exact fun e rest he hrest => ⟨he, hrest.dropSemicolon⟩

/-- A definition is made of a name and of an expression that can be written. -/
theorem formed_letStatement :
  MakesFormed finish (n + 1) letStatement
  := by
  intro l hl hs _
  show Ensures (Parse.letStatement finish (n + 1)) l _ _
  simp only [Parse.letStatement, ensures_bind, ensures_here, ensures_advance,
    ensures_skipSemicolon, ensures_pure]
  have hl₁ := hl.tail (by rw [show kindOf l = _ from hs]; rintro ⟨⟩)
  apply hl₁.identifier
  intro hname hl₂
  apply hl₂.expect (by decide)
  intro hl₃
  apply (ih (binary _)).bind hl₃ trivial trivial
  exact fun value rest hvalue hrest =>
    ⟨⟨hname, value.anonymous_named _, Expr.Formed.named hvalue hname⟩, hrest.dropSemicolon⟩

/-- What a return hands back, if anything, can be written. -/
theorem formed_returnStatement :
  MakesFormed finish (n + 1) returnStatement
  := by
  intro l hl hs _
  have hl₁ := hl.tail (by rw [show kindOf l = _ from hs]; rintro ⟨⟩)
  show Ensures (Parse.returnStatement finish (n + 1)) l _ _
  simp only [Parse.returnStatement, ensures_bind, ensures_here, ensures_advance, ensures_kind]
  split
  · simp only [ensures_bind, ensures_skipSemicolon, ensures_pure]
    exact ⟨trivial, hl₁.dropSemicolon⟩
  · simp only [ensures_bind, ensures_skipSemicolon, ensures_pure]
    exact ⟨trivial, hl₁.dropSemicolon⟩
  · simp only [ensures_bind, ensures_skipSemicolon, ensures_pure]
    exact ⟨trivial, hl₁.dropSemicolon⟩
  · simp only [ensures_bind, ensures_skipSemicolon, ensures_pure]
    apply (ih (binary _)).bind hl₁ trivial trivial
    exact fun value rest hvalue hrest => ⟨hvalue, hrest.dropSemicolon⟩

/-- A named function defines the name that it has. -/
theorem formed_funcStatement :
  MakesFormed finish (n + 1) funcStatement
  := by
  intro l hl hs _
  obtain ⟨hk, hname⟩ : kindOf l = .funcWord ∧ kindOf l.tail = .identifier := hs
  have hl₁ := hl.tail (by simp [hk])
  show Ensures (Parse.funcStatement finish (n + 1)) l _ _
  simp only [Parse.funcStatement, ensures_bind, ensures_here, ensures_advance, ensures_word,
    ensures_skipSemicolon, ensures_pure]
  apply (ih (function _)).bind hl₁ trivial trivial
  exact fun e rest he hrest =>
    ⟨⟨hl₁.name hname, he.2 hname, he.1⟩, hrest.dropSemicolon⟩

/-- A function literal has parameters and a body that can be written, and the name in front of its
parameters if there is one. -/
theorem formed_function (pos : Position) :
  MakesFormed finish (n + 1) (function pos)
  := by
  intro l hl _ _
  have key {l' : List Token} (name : Option String) (hl' : Spelled l')
      (hname : ∀ x ∈ name, IsName x) (hsome : kindOf l = .identifier → name.isSome = true) :
    Ensures (do
      expect finish .leftParen .paramsStart
      let names ← Parse.params finish n
      expect finish .rightParen .paramsEnd
      return Expr.func pos name names (← Parse.block finish n)) l'
      (fun a rest => (function pos).Makes l a ∧ Spelled rest) (fun _ => True)
    := by
    simp only [ensures_bind, ensures_pure]
    apply hl'.expect (by decide)
    intro hl'
    apply (ih params).bind hl' trivial trivial
    intro names l' hnames hl'
    apply hl'.expect (by decide)
    intro hl'
    apply (ih block).bind hl' trivial trivial
    intro body rest hbody hrest
    refine ⟨⟨⟨hname, hnames.1, hnames.2, hbody⟩, ?_⟩, hrest⟩
    intro hk
    cases name with
    | none => cases hsome hk
    | some x => rfl
  show Ensures (Parse.function finish (n + 1) pos) l _ _
  simp only [Parse.function]
  rw [ensures_bind, ensures_kind]
  by_cases hk : kindOf l = .identifier
  · simp only [hk, ↓reduceIte]
    rw [ensures_bind, ensures_map]
    apply hl.identifier
    intro hname hl'
    exact key (some _) hl' (by rintro x ⟨⟩; exact hname) (fun _ => rfl)
  · simp only [hk, ↓reduceIte]
    rw [ensures_bind, ensures_pure]
    exact key none hl (by rintro _ ⟨⟩) fun h => absurd h hk

/-- A parameter is a name that has not been among those before it. -/
theorem formed_paramNames (found : List String) :
  MakesFormed finish (n + 1) (paramNames found)
  := by
  rintro l hl _ ⟨hfound, hnodup⟩
  show Ensures (Parse.paramNames finish (n + 1) found) l _ _
  simp only [Parse.paramNames, ensures_bind, ensures_here]
  apply hl.identifier
  intro hname hl
  have hfound' : ∀ x ∈ found ++ [wordOf l], IsName x := by
    intro x hx
    rcases List.mem_append.mp hx with hx | hx
    · exact hfound x hx
    · rw [List.mem_singleton.mp hx]
      exact hname
  split
  next => trivial
  next hmem =>
    have hnodup' : (found ++ [wordOf l]).Nodup := by
      rw [List.nodup_append]
      refine ⟨hnodup, by simp, ?_⟩
      rintro x hx y hy rfl
      rw [List.mem_singleton.mp hy] at hx
      exact hmem hx
    simp only [ensures_bind]
    apply hl.skipComma
    intro comma rest hrest
    split
    next => exact ih (paramNames _) rest hrest trivial ⟨hfound', hnodup'⟩
    next => exact ⟨⟨hfound', hnodup'⟩, hrest⟩

end

/-- Parameters are different names, and none is found at first. -/
theorem formed_params (h : MakesFormed finish n (paramNames [])) :
  MakesFormed finish n params
  := by
  intro l hl _ _
  show Ensures (Parse.params finish n) l _ _
  simp only [Parse.params, ensures_bind, ensures_kind, ensures_ite, ensures_pure]
  split
  next => exact ⟨⟨List.forall_mem_nil _, List.nodup_nil⟩, hl⟩
  next => exact h l hl trivial ⟨List.forall_mem_nil _, List.nodup_nil⟩

/-- An import names a word or a text. -/
theorem formed_useStatement :
  MakesFormed finish n useStatement
  := by
  intro l hl hs _
  have hl₁ := hl.tail (by rw [show kindOf l = _ from hs]; rintro ⟨⟩)
  show Ensures (Parse.useStatement finish) l _ _
  simp only [Parse.useStatement, ensures_bind, ensures_here, ensures_advance, ensures_kind]
  split
  next hk =>
    simp only [ensures_bind, ensures_word, ensures_advance, ensures_skipSemicolon, ensures_pure]
    exact ⟨trivial, (hl₁.tail (by simp [hk])).dropSemicolon⟩
  next hk =>
    simp only [ensures_bind, ensures_word, ensures_advance, ensures_skipSemicolon, ensures_pure]
    exact ⟨trivial, (hl₁.tail (by simp [hk])).dropSemicolon⟩
  next => simp

section

variable (ih : ∀ r, MakesFormed finish n r)

include ih

/-- What stands in braces is a block. -/
theorem formed_block :
  MakesFormed finish (n + 1) block
  := by
  intro l hl _ _
  show Ensures (Parse.block finish (n + 1)) l _ _
  simp only [Parse.block, ensures_bind, ensures_here]
  apply hl.expect (by decide)
  intro hl
  exact ih (blockRest _) _ hl trivial trivial

/-- Each statement of a block can be written, and so can those behind it. -/
theorem formed_blockRest (start : Position) :
  MakesFormed finish (n + 1) (blockRest start)
  := by
  intro l hl _ _
  show Ensures (Parse.blockRest finish (n + 1) start) l _ _
  simp only [Parse.blockRest, ensures_bind, ensures_kind]
  split
  next hk =>
    simp only [ensures_bind, ensures_advance, ensures_pure]
    exact ⟨trivial, hl.tail (by simp [hk])⟩
  next => trivial
  next hk =>
    simp only [ensures_bind, ensures_advance]
    exact ih (blockRest start) _ (hl.tail (by simp [hk])) trivial trivial
  next =>
    simp only [ensures_bind, ensures_pure]
    apply (ih statement).bind hl trivial trivial
    intro s rest hs hrest
    apply (ih (blockRest start)).bind hrest trivial trivial
    exact fun ss rest hss hrest => ⟨⟨hs, hss⟩, hrest⟩

/-- An operand and the operators behind it make what can be written. -/
theorem formed_binary (level : Nat) :
  MakesFormed finish (n + 1) (binary level)
  := by
  intro l hl _ _
  show Ensures (Parse.binary finish (n + 1) level) l _ _
  simp only [Parse.binary, ensures_bind]
  apply (ih unary).bind hl trivial trivial
  exact fun left rest hleft hrest => ih (binaryRest level left) rest hrest trivial hleft

/-- Two sides that can be written, joined by an operator, can be written. -/
theorem formed_binaryRest (level : Nat) (left : Expr) :
  MakesFormed finish (n + 1) (binaryRest level left)
  := by
  intro l hl _ hleft
  show Ensures (Parse.binaryRest finish (n + 1) level left) l _ _
  simp only [Parse.binaryRest, ensures_bind, ensures_kind]
  split
  next hk =>
    split
    next => exact ⟨hleft, hl⟩
    next => exact ih (assignment level left) l hl hk hleft
  next =>
    split
    next => exact ⟨hleft, hl⟩
    next op hop =>
      split
      next => exact ⟨hleft, hl⟩
      next =>
        have hdec : kindOf l ≠ .decorator := by
          intro hdec
          rw [hdec] at hop
          cases hop
        simp only [ensures_bind, ensures_here, ensures_advance]
        apply (ih (binary _)).bind (hl.tail hdec) trivial trivial
        exact fun right rest hright hrest =>
          ih (binaryRest level _) rest hrest trivial ⟨hleft, hright⟩

/-- Only an assignment to a name is made, and it can be written. -/
theorem formed_assignment (level : Nat) (left : Expr) :
  MakesFormed finish (n + 1) (assignment level left)
  := by
  intro l hl hs hleft
  have hl₁ := hl.tail (by rw [show kindOf l = _ from hs]; rintro ⟨⟩)
  show Ensures (Parse.assignment finish (n + 1) level left) l _ _
  simp only [Parse.assignment, ensures_bind, ensures_here, ensures_advance]
  cases left with
  | name pos x =>
      simp only [ensures_bind]
      apply (ih (binary _)).bind hl₁ trivial trivial
      exact fun value rest hvalue hrest =>
        ih (binaryRest level _) rest hrest trivial ⟨hleft, hvalue⟩
  | _ => trivial

/-- An operand with a prefix can be written. -/
theorem formed_unary :
  MakesFormed finish (n + 1) unary
  := by
  intro l hl _ _
  show Ensures (Parse.unary finish (n + 1)) l _ _
  simp only [Parse.unary, ensures_bind, ensures_here, ensures_kind]
  have htail {op : UnaryOp} (hop : UnaryOp.ofToken? (kindOf l) = some op) : Spelled l.tail := by
    apply hl.tail
    intro hdec
    rw [hdec] at hop
    cases hop
  split
  next => exact ih suffixed l hl trivial trivial
  next hop =>
    simp only [ensures_bind, ensures_advance, ensures_pure]
    apply (ih (binary _)).bind (htail hop) trivial trivial
    exact fun e rest he hrest => ⟨⟨he, by rintro ⟨⟩⟩, hrest⟩
  next hop =>
    simp only [ensures_bind, ensures_advance, ensures_here, ensures_pure]
    apply (htail hop).identifier
    exact fun hname hrest => ⟨⟨hname, fun _ => rfl⟩, hrest⟩
  next op _ hdelete hop =>
    simp only [ensures_bind, ensures_advance, ensures_pure]
    apply (ih unary).bind (htail hop) trivial trivial
    exact fun e rest he hrest => ⟨⟨he, fun h => absurd h hdelete⟩, hrest⟩

/-- An operand with the calls and indices behind it can be written. -/
theorem formed_suffixed :
  MakesFormed finish (n + 1) suffixed
  := by
  intro l hl _ _
  show Ensures (Parse.suffixed finish (n + 1)) l _ _
  simp only [Parse.suffixed, ensures_bind]
  apply (ih primary).bind hl trivial trivial
  exact fun e rest he hrest => ih (suffixes e) rest hrest trivial he

/-- A call or an index of what can be written can be written. -/
theorem formed_suffixes (e : Expr) :
  MakesFormed finish (n + 1) (suffixes e)
  := by
  intro l hl _ he
  show Ensures (Parse.suffixes finish (n + 1) e) l _ _
  simp only [Parse.suffixes, ensures_bind, ensures_here, ensures_kind]
  split
  next hk =>
    simp only [ensures_bind, ensures_advance]
    apply (ih (expressions _)).bind (hl.tail (by simp [hk])) (.inl rfl) trivial
    intro args rest hargs hrest
    apply hrest.expect (by decide)
    exact fun hrest => ih (suffixes _) _ hrest trivial ⟨he, hargs⟩
  next hk =>
    simp only [ensures_bind, ensures_advance]
    apply (ih (binary _)).bind (hl.tail (by simp [hk])) trivial trivial
    intro i rest hi hrest
    apply hrest.expect (by decide)
    exact fun hrest => ih (suffixes _) _ hrest trivial ⟨he, hi⟩
  next => exact ⟨he, hl⟩

/-- Each of the expressions that commas part can be written. -/
theorem formed_expressions (stop : TokenKind) :
  MakesFormed finish (n + 1) (expressions stop)
  := by
  intro l hl hs _
  show Ensures (Parse.expressions finish (n + 1) stop) l _ _
  simp only [Parse.expressions, ensures_bind, ensures_kind, ensures_ite, ensures_pure]
  split
  next => exact ⟨trivial, hl⟩
  next =>
    apply (ih (binary _)).bind hl trivial trivial
    intro e rest he hrest
    apply hrest.skipComma
    intro comma rest hrest
    split
    next =>
      apply (ih (expressions stop)).bind hrest hs trivial
      exact fun es rest hes hrest => ⟨⟨he, hes⟩, hrest⟩
    next => exact ⟨⟨he, trivial⟩, hrest⟩

/-- A literal, a name or what stands in parentheses can be written. -/
theorem formed_primary :
  MakesFormed finish (n + 1) primary
  := by
  intro l hl _ _
  show Ensures (Parse.primary finish (n + 1)) l _ _
  simp only [Parse.primary, ensures_bind, ensures_here, ensures_kind]
  split
  next hk =>
    simp only [ensures_bind, ensures_word, ensures_advance, ensures_pure]
    exact ⟨trivial, hl.tail (by simp [hk])⟩
  next hk =>
    simp only [ensures_bind, ensures_word, ensures_advance, ensures_pure]
    exact ⟨trivial, hl.tail (by simp [hk])⟩
  next hk =>
    simp only [ensures_bind, ensures_advance, ensures_pure]
    exact ⟨trivial, hl.tail (by simp [hk])⟩
  next hk =>
    simp only [ensures_bind, ensures_advance, ensures_pure]
    exact ⟨trivial, hl.tail (by simp [hk])⟩
  next hk =>
    simp only [ensures_bind, ensures_advance, ensures_pure]
    exact ⟨trivial, hl.tail (by simp [hk])⟩
  next hk =>
    simp only [ensures_bind, ensures_word, ensures_advance, ensures_pure]
    exact ⟨hl.name hk, hl.tail (by simp [hk])⟩
  next hk =>
    simp only [ensures_bind, ensures_advance, ensures_pure]
    apply (ih (binary _)).bind (hl.tail (by simp [hk])) trivial trivial
    intro e rest he hrest
    apply hrest.expect (by decide)
    exact fun hrest => ⟨he, hrest⟩
  next hk =>
    simp only [ensures_bind, ensures_advance, ensures_pure]
    apply (ih (expressions _)).bind (hl.tail (by simp [hk])) (.inr rfl) trivial
    intro es rest hes hrest
    apply hrest.expect (by decide)
    exact fun hrest => ⟨hes, hrest⟩
  next hk =>
    simp only [ensures_bind, ensures_advance, ensures_pure]
    apply (ih hashEntries).bind (hl.tail (by simp [hk])) trivial trivial
    intro entries rest hentries hrest
    apply hrest.expect (by decide)
    exact fun hrest => ⟨hentries, hrest⟩
  next hk => exact ih conditional l hl hk trivial
  next hk =>
    simp only [ensures_bind, ensures_advance, ensures_pure]
    apply (ih (condition _)).bind (hl.tail (by simp [hk])) trivial trivial
    intro test rest htest hrest
    apply (ih block).bind hrest trivial trivial
    exact fun body rest hbody hrest => ⟨⟨htest, hbody⟩, hrest⟩
  next hk =>
    simp only [ensures_bind, ensures_advance]
    apply (ih (function _)).bind (hl.tail (by simp [hk])) trivial trivial
    exact fun e rest he hrest => ⟨he.1, hrest⟩
  next hk =>
    apply (ih decorated).bind hl hk trivial
    exact fun e rest he hrest => ⟨Stmt.IsDeclaration.formed (he .start), hrest⟩
  next => simp

/-- A key is a name, as a text, or an expression that can be written. -/
theorem formed_hashKey :
  MakesFormed finish (n + 1) hashKey
  := by
  intro l hl _ _
  show Ensures (Parse.hashKey finish (n + 1)) l _ _
  simp only [Parse.hashKey, ensures_bind, ensures_kind, ensures_secondKind, ensures_ite,
    ensures_here, ensures_word, ensures_advance, ensures_pure]
  split
  next hk => exact ⟨trivial, hl.tail (by simp [hk.1])⟩
  next => exact ih (binary _) l hl trivial trivial

/-- Each of the entries that commas part can be written. -/
theorem formed_hashEntries :
  MakesFormed finish (n + 1) hashEntries
  := by
  intro l hl _ _
  show Ensures (Parse.hashEntries finish (n + 1)) l _ _
  simp only [Parse.hashEntries, ensures_bind, ensures_kind, ensures_ite, ensures_pure]
  split
  next => exact ⟨trivial, hl⟩
  next =>
    apply (ih hashKey).bind hl trivial trivial
    intro key rest hkey hrest
    apply hrest.expect (by decide)
    intro hrest
    apply (ih (binary _)).bind hrest trivial trivial
    intro value rest hvalue hrest
    apply hrest.skipComma
    intro comma rest hrest
    split
    next =>
      apply (ih hashEntries).bind hrest trivial trivial
      exact fun entries rest hentries hrest => ⟨⟨hkey, hvalue, hentries⟩, hrest⟩
    next => exact ⟨⟨hkey, hvalue, trivial⟩, hrest⟩

/-- A condition is an expression in parentheses. -/
theorem formed_condition (keyword : String) :
  MakesFormed finish (n + 1) (condition keyword)
  := by
  intro l hl _ _
  show Ensures (Parse.condition finish (n + 1) keyword) l _ _
  simp only [Parse.condition, ensures_bind, ensures_pure]
  apply hl.expect (by decide)
  intro hl
  apply (ih (binary _)).bind hl trivial trivial
  intro test rest htest hrest
  apply hrest.expect (by decide)
  exact fun hrest => ⟨htest, hrest⟩

/-- A conditional can be written, with a second branch or without. -/
theorem formed_conditional :
  MakesFormed finish (n + 1) conditional
  := by
  intro l hl hs _
  have hl₁ := hl.tail (by rw [show kindOf l = _ from hs]; rintro ⟨⟩)
  show Ensures (Parse.conditional finish (n + 1)) l _ _
  simp only [Parse.conditional, ensures_bind, ensures_here, ensures_advance]
  apply (ih (condition _)).bind hl₁ trivial trivial
  intro test rest htest hrest
  apply (ih block).bind hrest trivial trivial
  intro yes rest hyes hrest
  rw [ensures_kind]
  split
  next hk =>
    have hrest := hrest.tail (by simp [hk])
    simp only [ensures_bind, ensures_advance, ensures_kind]
    split
    next hk =>
      simp only [ensures_bind, ensures_here, ensures_pure]
      apply (ih conditional).bind hrest hk trivial
      exact fun nested rest hnested hrest => ⟨⟨htest, hyes, hnested, trivial⟩, hrest⟩
    next =>
      simp only [ensures_bind, ensures_pure]
      apply (ih block).bind hrest trivial trivial
      exact fun no rest hno hrest => ⟨⟨htest, hyes, hno⟩, hrest⟩
  next => exact ⟨⟨htest, hyes⟩, hrest⟩

/-- A decorated declaration is a declaration in turn. -/
theorem formed_decorated :
  MakesFormed finish (n + 1) decorated
  := by
  intro l hl hs _
  obtain ⟨hword, hl⟩ := hl.decorator_inv hs
  show Ensures (Parse.decorated finish (n + 1)) l _ _
  simp only [Parse.decorated, ensures_bind, ensures_here, ensures_advance, ensures_identifier]
  split
  next =>
    rw [ensures_kind]
    split
    next hk =>
      simp only [ensures_bind, ensures_advance, ensures_pure]
      apply (ih (expressions _)).bind (hl.tail (by simp [hk])) (.inl rfl) trivial
      intro args rest hargs hrest
      apply hrest.expect (by decide)
      intro hrest
      apply (ih declaration).bind hrest trivial trivial
      exact fun s rest hs hrest => ⟨fun _ => ⟨⟨hword, hargs⟩, hs⟩, hrest⟩
    next =>
      simp only [ensures_bind, ensures_pure]
      apply (ih declaration).bind hl trivial trivial
      exact fun s rest hs hrest => ⟨fun _ => ⟨hword, hs⟩, hrest⟩
  next => trivial

/-- Behind a decorator stands a definition, a named function or another decorator. -/
theorem formed_declaration :
  MakesFormed finish (n + 1) declaration
  := by
  intro l hl _ _
  show Ensures (Parse.declaration finish (n + 1)) l _ _
  simp only [Parse.declaration, ensures_bind, ensures_kind]
  split
  next hk => exact ih letStatement l hl hk trivial
  next hk =>
    simp only [ensures_bind, ensures_secondKind, ensures_ite]
    split
    next hname => exact ih funcStatement l hl ⟨hk, hname⟩ trivial
    next => simp
  next hk =>
    simp only [ensures_bind, ensures_here, ensures_pure]
    apply (ih decorated).bind hl hk trivial
    exact fun e rest he hrest => ⟨he _, hrest⟩
  next => simp

end

/-- What every rule makes. -/
theorem makesFormed (finish : Position) (n : Nat) (r : Rule) :
  MakesFormed finish n r
  := by
  induction n generalizing r with
  | zero =>
      have hzero (r : Rule) (hp : r ≠ params) (hu : r ≠ useStatement) :
        MakesFormed finish 0 r
        := by
        intro l _ _ _
        rw [run_zero finish r hp hu, ensures_fail]
        trivial
      by_cases hp : r = params
      · rw [hp]
        exact formed_params (hzero _ (by rintro ⟨⟩) (by rintro ⟨⟩))
      · by_cases hu : r = useStatement
        · rw [hu]
          exact formed_useStatement
        · exact hzero r hp hu
  | succ n ih =>
      cases r with
      | statement => exact formed_statement ih
      | exprStatement => exact formed_exprStatement ih
      | letStatement => exact formed_letStatement ih
      | returnStatement => exact formed_returnStatement ih
      | useStatement => exact formed_useStatement
      | funcStatement => exact formed_funcStatement ih
      | function pos => exact formed_function ih pos
      | params => exact formed_params (formed_paramNames ih [])
      | paramNames found => exact formed_paramNames ih found
      | block => exact formed_block ih
      | blockRest start => exact formed_blockRest ih start
      | binary level => exact formed_binary ih level
      | binaryRest level left => exact formed_binaryRest ih level left
      | assignment level left => exact formed_assignment ih level left
      | unary => exact formed_unary ih
      | suffixed => exact formed_suffixed ih
      | suffixes e => exact formed_suffixes ih e
      | expressions stop => exact formed_expressions ih stop
      | primary => exact formed_primary ih
      | hashEntries => exact formed_hashEntries ih
      | hashKey => exact formed_hashKey ih
      | condition keyword => exact formed_condition ih keyword
      | conditional => exact formed_conditional ih
      | decorated => exact formed_decorated ih
      | declaration => exact formed_declaration ih

end Rule

/-- The statements that are parsed without errors from tokens that are spelled as they have to be
can be written. -/
theorem statements_formed {fuel k : Nat} (hl : Spelled l)
    (h : (statements finish fuel k l).2 = []) :
  Stmt.AllFormed (statements finish fuel k l).1
  := by
  induction k generalizing l with
  | zero => trivial
  | succ k ih =>
      cases l with
      | nil => trivial
      | cons t ts =>
          by_cases ht : t.kind = .semicolon
          · rw [statements_semicolon ht] at h ⊢
            exact ih (hl.tail (by simp [ht])) h
          · have hmakes := Rule.makesFormed finish fuel .statement (t :: ts) hl trivial trivial
            unfold Ensures at hmakes
            cases hrun : statement finish fuel (t :: ts) with
            | error e rest =>
                rw [statements_error ht hrun] at h
                cases h
            | ok s rest =>
                simp only [hrun] at hmakes
                rw [statements_ok ht hrun] at h ⊢
                exact ⟨hmakes.1, ih hmakes.2 h⟩

end Parse

/-- The statements of a source without errors can be written. -/
theorem Program.parse_formed {text file : String} (h : (Program.parse text file).2 = []) :
  Stmt.AllFormed (Program.parse text file).1.statements
  := by
  rw [Program.parse_eq] at h ⊢
  exact statements_formed (Source.tokens_spelled text) h

end Scriptlet
