import Scriptlet.Proofs.Parsing.Rule

/-!
# More fuel

A rule that succeeds does the same with more fuel.
-/

namespace Scriptlet

namespace Parse

variable {α β : Type}

/-- Wherever `p` succeeds, `q` does the same. -/
def Extends (p q : Parse α) : Prop :=
  ∀ l a rest, p l = .ok a rest → q l = .ok a rest

/-- A run does the same wherever it succeeds. -/
theorem Extends.refl (p : Parse α) :
  Extends p p
  := fun _ _ _ h => h

/-- What does the same as what does the same does the same. -/
theorem Extends.trans {p q r : Parse α} (h : Extends p q) (h' : Extends q r) :
  Extends p r
  := fun l a rest hp => h' l a rest (h l a rest hp)

/-- A run goes on as another one does if both start and go on alike. -/
theorem extends_bind {x y : Parse β} {f g : β → Parse α} (hx : Extends x y)
    (hf : ∀ b, Extends (f b) (g b)) :
  Extends (x >>= f) (y >>= g)
  := by
  intro l a rest h
  obtain ⟨b, m, hxl, hfm⟩ := bind_eq_ok.mp h
  exact bind_eq_ok.mpr ⟨b, m, hx l b m hxl, hf b m a rest hfm⟩

/-- The same step, and then what extends. -/
theorem extends_step (x : Parse β) {f g : β → Parse α} (hf : ∀ b, Extends (f b) (g b)) :
  Extends (x >>= f) (x >>= g)
  := extends_bind (.refl x) hf

/-- A run goes on in the same way as another one that starts alike. -/
theorem extends_map {x y : Parse β} (hx : Extends x y) (f : β → Parse α) :
  Extends (x >>= f) (y >>= f)
  := extends_bind hx fun b => .refl (f b)

/-- A run that never succeeds is extended by every run. -/
theorem extends_fail (finish : Position) (flaw : SyntaxFlaw) (p : Parse α) :
  Extends (fail finish flaw) p
  := by
  intro l a rest h
  have hfail : Ensures (fail (α := α) finish flaw) l (fun _ _ => False) (fun _ => True) := by simp
  unfold Ensures at hfail
  rw [h] at hfail
  contradiction

namespace Rule

section

variable {finish : Position} {n : Nat}
  (ih : ∀ r : Rule, Extends (r.run finish n) (r.run finish (n + 1)))

include ih

/-- More fuel for the rule that the first token calls for. -/
theorem extends_statement :
  Extends (statement.run finish (n + 1)) (statement.run finish (n + 2))
  := by
  show Extends (Parse.statement finish (n + 1)) (Parse.statement finish (n + 2))
  simp only [Parse.statement]
  apply extends_step
  intro k
  split
  · exact ih letStatement
  · exact ih returnStatement
  · exact .refl _
  · apply extends_step
    intro pos
    exact extends_map (ih block) _
  · apply extends_step
    intro k'
    split
    · exact ih funcStatement
    · exact ih exprStatement
  · exact ih exprStatement

/-- More fuel for the expression of a statement. -/
theorem extends_exprStatement :
  Extends (exprStatement.run finish (n + 1)) (exprStatement.run finish (n + 2))
  := by
  show Extends (Parse.exprStatement finish (n + 1)) (Parse.exprStatement finish (n + 2))
  simp only [Parse.exprStatement]
  apply extends_step
  intro pos
  exact extends_map (ih (binary _)) _

/-- More fuel for the value of a definition. -/
theorem extends_letStatement :
  Extends (letStatement.run finish (n + 1)) (letStatement.run finish (n + 2))
  := by
  show Extends (Parse.letStatement finish (n + 1)) (Parse.letStatement finish (n + 2))
  simp only [Parse.letStatement]
  apply extends_step
  intro pos
  apply extends_step
  intro _
  apply extends_step
  intro name
  apply extends_step
  intro _
  exact extends_map (ih (binary _)) _

/-- More fuel for what a return hands back. -/
theorem extends_returnStatement :
  Extends (returnStatement.run finish (n + 1)) (returnStatement.run finish (n + 2))
  := by
  show Extends (Parse.returnStatement finish (n + 1))
    (Parse.returnStatement finish (n + 2))
  simp only [Parse.returnStatement]
  apply extends_step
  intro pos
  apply extends_step
  intro _
  apply extends_step
  intro k
  split
  · exact .refl _
  · exact .refl _
  · exact .refl _
  · exact extends_map (ih (binary _)) _

/-- More fuel for a named function. -/
theorem extends_funcStatement :
  Extends (funcStatement.run finish (n + 1)) (funcStatement.run finish (n + 2))
  := by
  show Extends (Parse.funcStatement finish (n + 1)) (Parse.funcStatement finish (n + 2))
  simp only [Parse.funcStatement]
  apply extends_step
  intro pos
  apply extends_step
  intro _
  apply extends_step
  intro name
  exact extends_map (ih (function _)) _

/-- More fuel for the parameters and the body of a function. -/
theorem extends_function (pos : Position) :
  Extends ((function pos).run finish (n + 1)) ((function pos).run finish (n + 2))
  := by
  have key (name : Option String) :
    Extends
      (do
        expect finish .leftParen .paramsStart
        let names ← Parse.params finish n
        expect finish .rightParen .paramsEnd
        return Expr.func pos name names (← Parse.block finish n))
      (do
        expect finish .leftParen .paramsStart
        let names ← Parse.params finish (n + 1)
        expect finish .rightParen .paramsEnd
        return Expr.func pos name names (← Parse.block finish (n + 1)))
    := by
    apply extends_step
    intro _
    apply extends_bind (ih params)
    intro names
    apply extends_step
    intro _
    exact extends_map (ih block) _
  show Extends (Parse.function finish (n + 1) pos) (Parse.function finish (n + 2) pos)
  simp only [Parse.function]
  apply extends_step
  intro k
  split
  · apply extends_step
    intro name
    exact key name
  · apply extends_step
    intro name
    exact key name

/-- More fuel for the parameters behind one. -/
theorem extends_paramNames (found : List String) :
  Extends ((paramNames found).run finish (n + 1)) ((paramNames found).run finish (n + 2))
  := by
  show Extends (Parse.paramNames finish (n + 1) found) (Parse.paramNames finish (n + 2) found)
  simp only [Parse.paramNames]
  apply extends_step
  intro pos
  apply extends_step
  intro name
  split
  · exact .refl _
  · apply extends_step
    intro more
    split
    · exact ih (paramNames _)
    · exact .refl _

/-- More fuel for what stands between the parentheses of parameters. -/
theorem extends_params :
  Extends (params.run finish (n + 1)) (params.run finish (n + 2))
  := by
  apply extends_step
  intro k
  split
  · exact .refl _
  · exact extends_paramNames ih []

/-- More fuel for what stands between the braces of a block. -/
theorem extends_block :
  Extends (block.run finish (n + 1)) (block.run finish (n + 2))
  := by
  show Extends (Parse.block finish (n + 1)) (Parse.block finish (n + 2))
  simp only [Parse.block]
  apply extends_step
  intro pos
  apply extends_step
  intro _
  exact ih (blockRest pos)

/-- More fuel for the statements behind one. -/
theorem extends_blockRest (start : Position) :
  Extends ((blockRest start).run finish (n + 1)) ((blockRest start).run finish (n + 2))
  := by
  show Extends (Parse.blockRest finish (n + 1) start)
    (Parse.blockRest finish (n + 2) start)
  simp only [Parse.blockRest]
  apply extends_step
  intro k
  split
  · exact .refl _
  · exact .refl _
  · apply extends_step
    intro _
    exact ih (blockRest start)
  · apply extends_bind (ih statement)
    intro s
    exact extends_map (ih (blockRest start)) _

/-- More fuel for an operand and the operators behind it. -/
theorem extends_binary (level : Nat) :
  Extends ((binary level).run finish (n + 1)) ((binary level).run finish (n + 2))
  := by
  show Extends (Parse.binary finish (n + 1) level) (Parse.binary finish (n + 2) level)
  simp only [Parse.binary]
  apply extends_bind (ih unary)
  intro left
  exact ih (binaryRest level left)

/-- More fuel for the right side of an operator and for what is behind it. -/
theorem extends_binaryRest (level : Nat) (left : Expr) :
  Extends ((binaryRest level left).run finish (n + 1))
    ((binaryRest level left).run finish (n + 2))
  := by
  show Extends (Parse.binaryRest finish (n + 1) level left)
    (Parse.binaryRest finish (n + 2) level left)
  simp only [Parse.binaryRest]
  apply extends_step
  intro k
  split
  · split
    · exact .refl _
    · exact ih (assignment level left)
  · split
    · exact .refl _
    · split
      · exact .refl _
      · apply extends_step
        intro pos
        apply extends_step
        intro _
        apply extends_bind (ih (binary _))
        intro right
        exact ih (binaryRest level _)

/-- More fuel for the value of an assignment and for what is behind it. -/
theorem extends_assignment (level : Nat) (left : Expr) :
  Extends ((assignment level left).run finish (n + 1))
    ((assignment level left).run finish (n + 2))
  := by
  show Extends (Parse.assignment finish (n + 1) level left)
    (Parse.assignment finish (n + 2) level left)
  simp only [Parse.assignment]
  apply extends_step
  intro sign
  apply extends_step
  intro _
  split
  · apply extends_bind (ih (binary _))
    intro value
    exact ih (binaryRest level _)
  · exact .refl _

/-- More fuel for what is behind a prefix. -/
theorem extends_unary :
  Extends (unary.run finish (n + 1)) (unary.run finish (n + 2))
  := by
  show Extends (Parse.unary finish (n + 1)) (Parse.unary finish (n + 2))
  simp only [Parse.unary]
  apply extends_step
  intro pos
  apply extends_step
  intro k
  split
  · exact ih suffixed
  · apply extends_step
    intro _
    exact extends_map (ih (binary _)) _
  · exact .refl _
  · apply extends_step
    intro _
    exact extends_map (ih unary) _

/-- More fuel for an operand and for the calls and indices behind it. -/
theorem extends_suffixed :
  Extends (suffixed.run finish (n + 1)) (suffixed.run finish (n + 2))
  := by
  show Extends (Parse.suffixed finish (n + 1)) (Parse.suffixed finish (n + 2))
  simp only [Parse.suffixed]
  apply extends_bind (ih primary)
  intro e
  exact ih (suffixes e)

/-- More fuel for the arguments of a call and for what is behind it. -/
theorem extends_suffixes (e : Expr) :
  Extends ((suffixes e).run finish (n + 1)) ((suffixes e).run finish (n + 2))
  := by
  show Extends (Parse.suffixes finish (n + 1) e) (Parse.suffixes finish (n + 2) e)
  simp only [Parse.suffixes]
  apply extends_step
  intro pos
  apply extends_step
  intro k
  split
  · apply extends_step
    intro _
    apply extends_bind (ih (expressions _))
    intro args
    apply extends_step
    intro _
    exact ih (suffixes _)
  · apply extends_step
    intro _
    apply extends_bind (ih (binary _))
    intro i
    apply extends_step
    intro _
    exact ih (suffixes _)
  · exact .refl _

/-- More fuel for an expression and for those behind its comma. -/
theorem extends_expressions (stop : TokenKind) :
  Extends ((expressions stop).run finish (n + 1)) ((expressions stop).run finish (n + 2))
  := by
  show Extends (Parse.expressions finish (n + 1) stop)
    (Parse.expressions finish (n + 2) stop)
  simp only [Parse.expressions]
  apply extends_step
  intro k
  split
  · exact .refl _
  · apply extends_bind (ih (binary _))
    intro e
    apply extends_step
    intro more
    split
    · exact extends_map (ih (expressions stop)) _
    · exact .refl _

/-- More fuel for what is inside an operand. -/
theorem extends_primary :
  Extends (primary.run finish (n + 1)) (primary.run finish (n + 2))
  := by
  show Extends (Parse.primary finish (n + 1)) (Parse.primary finish (n + 2))
  simp only [Parse.primary]
  apply extends_step
  intro pos
  apply extends_step
  intro k
  split
  · exact .refl _
  · exact .refl _
  · exact .refl _
  · exact .refl _
  · exact .refl _
  · exact .refl _
  · apply extends_step
    intro _
    exact extends_map (ih (binary _)) _
  · apply extends_step
    intro _
    exact extends_map (ih (expressions _)) _
  · apply extends_step
    intro _
    exact extends_map (ih hashEntries) _
  · exact ih conditional
  · apply extends_step
    intro _
    apply extends_bind (ih (condition _))
    intro test
    exact extends_map (ih block) _
  · apply extends_step
    intro _
    exact ih (function pos)
  · exact ih decorated
  · exact .refl _

/-- More fuel for an entry and for those behind its comma. -/
theorem extends_hashEntries :
  Extends (hashEntries.run finish (n + 1)) (hashEntries.run finish (n + 2))
  := by
  show Extends (Parse.hashEntries finish (n + 1)) (Parse.hashEntries finish (n + 2))
  simp only [Parse.hashEntries]
  apply extends_step
  intro k
  split
  · exact .refl _
  · apply extends_bind (ih hashKey)
    intro key
    apply extends_step
    intro _
    apply extends_bind (ih (binary _))
    intro value
    apply extends_step
    intro more
    split
    · exact extends_map (ih hashEntries) _
    · exact .refl _

/-- More fuel for a key that is an expression. -/
theorem extends_hashKey :
  Extends (hashKey.run finish (n + 1)) (hashKey.run finish (n + 2))
  := by
  show Extends (Parse.hashKey finish (n + 1)) (Parse.hashKey finish (n + 2))
  simp only [Parse.hashKey]
  apply extends_step
  intro k
  apply extends_step
  intro k'
  split
  · exact .refl _
  · exact ih (binary _)

/-- More fuel for what stands in the parentheses of a condition. -/
theorem extends_condition (keyword : String) :
  Extends ((condition keyword).run finish (n + 1)) ((condition keyword).run finish (n + 2))
  := by
  show Extends (Parse.condition finish (n + 1) keyword)
    (Parse.condition finish (n + 2) keyword)
  simp only [Parse.condition]
  apply extends_step
  intro _
  exact extends_map (ih (binary _)) _

/-- More fuel for the condition and for the branches of a conditional. -/
theorem extends_conditional :
  Extends (conditional.run finish (n + 1)) (conditional.run finish (n + 2))
  := by
  show Extends (Parse.conditional finish (n + 1)) (Parse.conditional finish (n + 2))
  simp only [Parse.conditional]
  apply extends_step
  intro pos
  apply extends_step
  intro _
  apply extends_bind (ih (condition _))
  intro test
  apply extends_bind (ih block)
  intro yes
  apply extends_step
  intro k
  split
  · apply extends_step
    intro _
    apply extends_step
    intro k'
    split
    · apply extends_step
      intro inner
      exact extends_map (ih conditional) _
    · exact extends_map (ih block) _
  · exact .refl _

/-- More fuel for what a decorator stands in front of. -/
theorem extends_decorated :
  Extends (decorated.run finish (n + 1)) (decorated.run finish (n + 2))
  := by
  show Extends (Parse.decorated finish (n + 1)) (Parse.decorated finish (n + 2))
  simp only [Parse.decorated]
  apply extends_step
  intro pos
  apply extends_step
  intro _
  apply extends_step
  intro namePos
  apply extends_step
  intro name
  apply extends_step
  intro callPos
  apply extends_step
  intro k
  split
  · apply extends_step
    intro _
    apply extends_bind (ih (expressions _))
    intro args
    apply extends_step
    intro _
    exact extends_map (ih declaration) _
  · exact extends_map (ih declaration) _

/-- More fuel for a declaration of each kind. -/
theorem extends_declaration :
  Extends (declaration.run finish (n + 1)) (declaration.run finish (n + 2))
  := by
  show Extends (Parse.declaration finish (n + 1)) (Parse.declaration finish (n + 2))
  simp only [Parse.declaration]
  apply extends_step
  intro k
  split
  · exact ih letStatement
  · apply extends_step
    intro k'
    split
    · exact ih funcStatement
    · exact .refl _
  · apply extends_step
    intro pos
    exact extends_map (ih decorated) _
  · exact .refl _

end

/-- Without fuel no rule succeeds. -/
theorem extends_one (finish : Position) (r : Rule) :
  Extends (r.run finish 0) (r.run finish 1)
  := by
  have hfail (r : Rule) (hp : r ≠ params) (hu : r ≠ useStatement) :
    Extends (r.run finish 0) (r.run finish 1)
    := by
    rw [run_zero finish r hp hu]
    exact extends_fail _ _ _
  by_cases hp : r = params
  · subst hp
    apply extends_step
    intro k
    split
    · exact .refl _
    · exact hfail (paramNames []) (by rintro ⟨⟩) (by rintro ⟨⟩)
  · by_cases hu : r = useStatement
    · subst hu
      exact .refl _
    · exact hfail r hp hu

/-- One more unit of fuel changes no success of a rule. -/
theorem extends_succ (finish : Position) (n : Nat) (r : Rule) :
  Extends (r.run finish n) (r.run finish (n + 1))
  := by
  induction n generalizing r with
  | zero => exact extends_one finish r
  | succ n ih =>
      cases r with
      | statement => exact extends_statement ih
      | exprStatement => exact extends_exprStatement ih
      | letStatement => exact extends_letStatement ih
      | returnStatement => exact extends_returnStatement ih
      | useStatement => exact .refl _
      | funcStatement => exact extends_funcStatement ih
      | function pos => exact extends_function ih pos
      | params => exact extends_params ih
      | paramNames found => exact extends_paramNames ih found
      | block => exact extends_block ih
      | blockRest start => exact extends_blockRest ih start
      | binary level => exact extends_binary ih level
      | binaryRest level left => exact extends_binaryRest ih level left
      | assignment level left => exact extends_assignment ih level left
      | unary => exact extends_unary ih
      | suffixed => exact extends_suffixed ih
      | suffixes e => exact extends_suffixes ih e
      | expressions stop => exact extends_expressions ih stop
      | primary => exact extends_primary ih
      | hashEntries => exact extends_hashEntries ih
      | hashKey => exact extends_hashKey ih
      | condition keyword => exact extends_condition ih keyword
      | conditional => exact extends_conditional ih
      | decorated => exact extends_decorated ih
      | declaration => exact extends_declaration ih

/-- A rule that succeeds does the same with more fuel. -/
theorem extends_of_le {finish : Position} {n n' : Nat} (h : n ≤ n') (r : Rule) :
  Extends (r.run finish n) (r.run finish n')
  := by
  induction h with
  | refl => exact .refl _
  | step h ih => exact ih.trans (extends_succ finish _ r)

/-- The fuel with which a rule succeeds makes no difference to what it does. -/
theorem ok_unique {finish : Position} {n n' : Nat} {r : Rule} {l rest rest' : List Token}
    {a a' : r.Result} (h : r.run finish n l = .ok a rest) (h' : r.run finish n' l = .ok a' rest') :
  a = a' ∧ rest = rest'
  := by
  have hmax := extends_of_le (Nat.le_max_left n n') r l a rest h
  have hmax' := extends_of_le (Nat.le_max_right n n') r l a' rest' h'
  rw [hmax] at hmax'
  cases hmax'
  exact ⟨rfl, rfl⟩

end Rule

end Parse

end Scriptlet
