import Scriptlet.Tree.Parser

/-!
# Rules of the grammar

The functions of the parser as one family `Rule.run`, indexed by what each of them parses, so
that a property of all of them is one statement, proved by one induction on the fuel.
`Ensures p l Q E` says what a rule `p` leads to from the tokens `l`: `Q` holds of what it makes
and of the tokens it leaves, or it fails and `E` holds of the tokens that are left.
-/

namespace Scriptlet

namespace Parse

/-- The kind of the first token, that of the end if there is none. -/
def kindOf : List Token → TokenKind
  | [] => .eof
  | t :: _ => t.kind

/-- The text of the first token, none if there is none. -/
def wordOf : List Token → String
  | [] => ""
  | t :: _ => t.text

/-- The position of the first token, `finish` if there is none. -/
def hereOf (finish : Position) : List Token → Position
  | [] => finish
  | t :: _ => t.position

/-- The tokens without a semicolon at their start. -/
def dropSemicolon (l : List Token) : List Token :=
  if kindOf l = .semicolon then l.tail else l

@[simp] theorem kindOf_nil :
  kindOf [] = .eof
  := rfl

@[simp] theorem kindOf_cons (t : Token) (l : List Token) :
  kindOf (t :: l) = t.kind
  := rfl

@[simp] theorem wordOf_cons (t : Token) (l : List Token) :
  wordOf (t :: l) = t.text
  := rfl

@[simp] theorem hereOf_cons (finish : Position) (t : Token) (l : List Token) :
  hereOf finish (t :: l) = t.position
  := rfl

@[simp] theorem dropSemicolon_nil :
  dropSemicolon [] = []
  := rfl

/-- The functions of the parser. -/
inductive Rule where
  | statement
  | exprStatement
  | letStatement
  | returnStatement
  | useStatement
  | funcStatement
  | function (pos : Position)
  | params
  | paramNames (found : List String)
  | block
  | blockRest (start : Position)
  | binary (level : Nat)
  | binaryRest (level : Nat) (left : Expr)
  | assignment (level : Nat) (left : Expr)
  | unary
  | suffixed
  | suffixes (e : Expr)
  | expressions (stop : TokenKind)
  | primary
  | hashEntries
  | hashKey
  | condition (keyword : String)
  | conditional
  | decorated
  | declaration

namespace Rule

/-- What a rule makes of the tokens it reads. -/
@[reducible] def Result : Rule → Type
  | statement | exprStatement | letStatement | returnStatement | useStatement | funcStatement
  | declaration => Stmt
  | function _ | binary _ | binaryRest _ _ | assignment _ _ | unary | suffixed | suffixes _
  | primary | hashKey | condition _ | conditional | decorated => Expr
  | params | paramNames _ => List String
  | block | blockRest _ => List Stmt
  | expressions _ => List Expr
  | hashEntries => List (Expr × Expr)

/-- The function of a rule with the given fuel. -/
@[reducible] def run (finish : Position) (n : Nat) : (r : Rule) → Parse r.Result
  | statement => Parse.statement finish n
  | exprStatement => Parse.exprStatement finish n
  | letStatement => Parse.letStatement finish n
  | returnStatement => Parse.returnStatement finish n
  | useStatement => Parse.useStatement finish
  | funcStatement => Parse.funcStatement finish n
  | function pos => Parse.function finish n pos
  | params => Parse.params finish n
  | paramNames found => Parse.paramNames finish n found
  | block => Parse.block finish n
  | blockRest start => Parse.blockRest finish n start
  | binary level => Parse.binary finish n level
  | binaryRest level left => Parse.binaryRest finish n level left
  | assignment level left => Parse.assignment finish n level left
  | unary => Parse.unary finish n
  | suffixed => Parse.suffixed finish n
  | suffixes e => Parse.suffixes finish n e
  | expressions stop => Parse.expressions finish n stop
  | primary => Parse.primary finish n
  | hashEntries => Parse.hashEntries finish n
  | hashKey => Parse.hashKey finish n
  | condition keyword => Parse.condition finish n keyword
  | conditional => Parse.conditional finish n
  | decorated => Parse.decorated finish n
  | declaration => Parse.declaration finish n

/-- Without fuel, a rule that is given fuel fails at once. -/
theorem run_zero (finish : Position) (r : Rule) (hp : r ≠ params) (hu : r ≠ useStatement) :
  r.run finish 0 = fail finish .tooDeep
  := by
  cases r
  case params => contradiction
  case useStatement => contradiction
  all_goals
    simp only [run, Parse.statement, Parse.exprStatement, Parse.letStatement,
      Parse.returnStatement, Parse.funcStatement, Parse.function, Parse.paramNames, Parse.block,
      Parse.blockRest, Parse.binary, Parse.binaryRest, Parse.assignment, Parse.unary,
      Parse.suffixed, Parse.suffixes, Parse.expressions, Parse.primary, Parse.hashEntries,
      Parse.hashKey, Parse.condition, Parse.conditional, Parse.decorated, Parse.declaration]

end Rule

/-! ### What a rule leads to -/

/-- `p` leads from the tokens `l` to a result and tokens that fulfil `Q`, or fails and leaves
tokens that fulfil `E`. -/
def Ensures {α : Type} (p : Parse α) (l : List Token) (Q : α → List Token → Prop)
    (E : List Token → Prop) : Prop :=
  match p l with
  | .ok a rest => Q a rest
  | .error _ rest => E rest

section

variable {α β : Type} {l : List Token} {Q : α → List Token → Prop} {E : List Token → Prop}

/-- A run that leads to something leads to what follows from it. -/
theorem Ensures.mono {p : Parse α} {Q' : α → List Token → Prop} {E' : List Token → Prop}
    (h : Ensures p l Q E) (hQ : ∀ a rest, Q a rest → Q' a rest)
    (hE : ∀ rest, E rest → E' rest) :
  Ensures p l Q' E'
  := by
  unfold Ensures at h ⊢
  cases hp : p l with
  | ok a rest =>
      rw [hp] at h
      apply hQ _ _ h
  | error e rest =>
      rw [hp] at h
      apply hE _ h

/-- What a run makes of its tokens may be named in what it ensures. -/
theorem Ensures.run {p : Parse α} (h : Ensures p l Q E) :
  Ensures p l (fun a rest => Q a rest ∧ p l = .ok a rest) E
  := by
  unfold Ensures at h ⊢
  cases hp : p l with
  | ok a rest =>
      rw [hp] at h
      exact ⟨h, rfl⟩
  | error e rest =>
      rw [hp] at h
      exact h

/-- Two steps lead to what the second leads to from where the first one leads. -/
@[simp] theorem ensures_bind (x : Parse β) (f : β → Parse α) :
  Ensures (x >>= f) l Q E ↔ Ensures x l (fun b rest => Ensures (f b) rest Q E) E
  := by
  unfold Ensures
  simp only [bind, EStateM.bind]
  cases x l with
  | ok b rest => rfl
  | error e rest => rfl

/-- What is made at once leaves the tokens. -/
@[simp] theorem ensures_pure (a : α) :
  Ensures (pure a) l Q E ↔ Q a l
  := Iff.rfl

/-- What is made of a result leaves the same tokens. -/
@[simp] theorem ensures_map (f : β → α) (x : Parse β) :
  Ensures (f <$> x) l Q E ↔ Ensures x l (fun b rest => Q (f b) rest) E
  := by
  rw [map_eq_pure_bind, ensures_bind]
  rfl

/-- What fails at once leaves the tokens. -/
@[simp] theorem ensures_throw (e : SyntaxError) :
  Ensures (throw e) l Q E ↔ E l
  := Iff.rfl

/-- A look at the kind of the first token. -/
@[simp] theorem ensures_kind {Q : TokenKind → List Token → Prop} :
  Ensures kind l Q E ↔ Q (kindOf l) l
  := by
  cases l with
  | nil => rfl
  | cons t l => rfl

/-- A look at the kind of the second token. -/
@[simp] theorem ensures_secondKind {Q : TokenKind → List Token → Prop} :
  Ensures secondKind l Q E ↔ Q (kindOf l.tail) l
  := by
  rcases l with _ | ⟨t, _ | ⟨u, l⟩⟩
  · rfl
  · rfl
  · rfl

/-- A look at where the first token stands. -/
@[simp] theorem ensures_here (finish : Position) {Q : Position → List Token → Prop} :
  Ensures (here finish) l Q E ↔ Q (hereOf finish l) l
  := by
  cases l with
  | nil => rfl
  | cons t l => rfl

/-- A look at the text of the first token. -/
@[simp] theorem ensures_word {Q : String → List Token → Prop} :
  Ensures word l Q E ↔ Q (wordOf l) l
  := by
  cases l with
  | nil => rfl
  | cons t l => rfl

/-- A step over the first token. -/
@[simp] theorem ensures_advance {Q : Unit → List Token → Prop} :
  Ensures advance l Q E ↔ Q () l.tail
  := Iff.rfl

/-- A choice leads to what its branch leads to. -/
@[simp] theorem ensures_ite (c : Prop) [Decidable c] (p q : Parse α) :
  Ensures (if c then p else q) l Q E ↔ if c then Ensures p l Q E else Ensures q l Q E
  := by
  split
  · rfl
  · rfl

/-- An error that is reported leaves the tokens. -/
@[simp] theorem ensures_fail (finish : Position) (flaw : SyntaxFlaw) :
  Ensures (fail finish flaw) l Q E ↔ E l
  := by
  simp [fail]

/-- The error that something else is called for leaves the tokens. -/
@[simp] theorem ensures_unexpected (finish : Position) (what : Expectation) :
  Ensures (unexpected finish what) l Q E ↔ E l
  := by
  cases l with
  | nil => rfl
  | cons t l => rfl

/-- A token of the kind called for is read, and another one is an error. -/
@[simp] theorem ensures_expect (finish : Position) (wanted : TokenKind) (what : Expectation)
    {Q : Unit → List Token → Prop} :
  Ensures (expect finish wanted what) l Q E ↔ if kindOf l = wanted then Q () l.tail else E l
  := by
  simp [expect]

/-- A name is read, and anything else is an error. -/
@[simp] theorem ensures_identifier (finish : Position) (what : Expectation)
    {Q : String → List Token → Prop} :
  Ensures (identifier finish what) l Q E
    ↔ if kindOf l = .identifier then Q (wordOf l) l.tail else E l
  := by
  simp [identifier]

/-- A semicolon is read if there is one. -/
@[simp] theorem ensures_skipSemicolon {Q : Unit → List Token → Prop} :
  Ensures skipSemicolon l Q E ↔ Q () (dropSemicolon l)
  := by
  unfold dropSemicolon
  by_cases h : kindOf l = .semicolon
  · simp [skipSemicolon, h]
  · simp [skipSemicolon, h]

/-- A comma is read if there is one, and its reader is told. -/
@[simp] theorem ensures_skipComma {Q : Bool → List Token → Prop} :
  Ensures skipComma l Q E ↔ if kindOf l = .comma then Q true l.tail else Q false l
  := by
  simp [skipComma]

/-- The error that no expression stands there leaves the tokens. -/
@[simp] theorem ensures_noExpression (finish : Position) :
  Ensures (noExpression finish) l Q E ↔ E l
  := by
  simp only [noExpression, ensures_bind, ensures_word, ensures_kind]
  split
  · simp
  · simp
  · simp

end

/-! ### What a run does -/

section

variable {α β : Type} {l rest : List Token}

/-- The second step goes on with what the first one has made and left. -/
theorem bind_ok {x : Parse β} {f : β → Parse α} {b : β} (h : x l = .ok b rest) :
  (x >>= f) l = f b rest
  := by
  simp [bind, EStateM.bind, h]

/-- The second step is left out if the first one fails. -/
theorem bind_error {x : Parse β} {f : β → Parse α} {e : SyntaxError} (h : x l = .error e rest) :
  (x >>= f) l = .error e rest
  := by
  simp [bind, EStateM.bind, h]

/-- A run that succeeds is made of two that do. -/
theorem bind_eq_ok {x : Parse β} {f : β → Parse α} {a : α} :
  (x >>= f) l = .ok a rest ↔ ∃ b m, x l = .ok b m ∧ f b m = .ok a rest
  := by
  simp only [bind, EStateM.bind]
  cases hx : x l with
  | ok b m =>
      constructor
      · intro h
        exact ⟨b, m, rfl, h⟩
      · rintro ⟨b', m', heq, h⟩
        cases heq
        exact h
  | error e m => simp

/-- What follows a look at the kind of the first token. -/
theorem kind_bind (f : TokenKind → Parse α) (l : List Token) :
  (kind >>= f) l = f (kindOf l) l
  := by
  cases l with
  | nil => rfl
  | cons t l => rfl

/-- What follows a look at the kind of the second token. -/
theorem secondKind_bind (f : TokenKind → Parse α) (l : List Token) :
  (secondKind >>= f) l = f (kindOf l.tail) l
  := by
  rcases l with _ | ⟨t, _ | ⟨u, l⟩⟩
  · rfl
  · rfl
  · rfl

/-- What follows a look at where the first token stands. -/
theorem here_bind (finish : Position) (f : Position → Parse α) (l : List Token) :
  (here finish >>= f) l = f (hereOf finish l) l
  := by
  cases l with
  | nil => rfl
  | cons t l => rfl

/-- What follows a look at the text of the first token. -/
theorem word_bind (f : String → Parse α) (l : List Token) :
  (word >>= f) l = f (wordOf l) l
  := by
  cases l with
  | nil => rfl
  | cons t l => rfl

/-- What follows a step over the first token. -/
theorem advance_bind (f : Unit → Parse α) (l : List Token) :
  (advance >>= f) l = f () l.tail
  := rfl

/-- A run that cannot succeed fails. -/
theorem Ensures.error {p : Parse α} {E : List Token → Prop}
    (h : Ensures p l (fun _ _ => False) E) :
  ∃ e rest, p l = .error e rest ∧ E rest
  := by
  unfold Ensures at h
  cases hp : p l with
  | ok a rest =>
      rw [hp] at h
      contradiction
  | error e rest =>
      rw [hp] at h
      exact ⟨e, rest, rfl, h⟩

/-- A run that cannot fail succeeds. -/
theorem Ensures.ok {p : Parse α} {Q : α → List Token → Prop}
    (h : Ensures p l Q (fun _ => False)) :
  ∃ a rest, p l = .ok a rest ∧ Q a rest
  := by
  unfold Ensures at h
  cases hp : p l with
  | ok a rest =>
      rw [hp] at h
      exact ⟨a, rest, rfl, h⟩
  | error e rest =>
      rw [hp] at h
      contradiction

/-- A token of the kind called for is read. -/
theorem expect_ok {finish : Position} {wanted : TokenKind} {what : Expectation}
    (h : kindOf l = wanted) :
  expect finish wanted what l = .ok () l.tail
  := by
  have : Ensures (expect finish wanted what) l (fun _ rest => rest = l.tail) (fun _ => False)
    := by
    simp [h]
  obtain ⟨a, rest, hrun, rfl⟩ := this.ok
  exact hrun

/-- A semicolon is read if there is one. -/
theorem skipSemicolon_ok (l : List Token) :
  skipSemicolon l = .ok () (dropSemicolon l)
  := by
  have : Ensures skipSemicolon l (fun _ rest => rest = dropSemicolon l) (fun _ => False) := by
    simp
  obtain ⟨a, rest, hrun, rfl⟩ := this.ok
  exact hrun

/-- A comma is read. -/
theorem skipComma_yes (h : kindOf l = .comma) :
  skipComma l = .ok true l.tail
  := by
  have : Ensures skipComma l (fun a rest => a = true ∧ rest = l.tail) (fun _ => False) := by
    simp [h]
  obtain ⟨a, rest, hrun, rfl, rfl⟩ := this.ok
  exact hrun

/-- What is no comma is left. -/
theorem skipComma_no (h : kindOf l ≠ .comma) :
  skipComma l = .ok false l
  := by
  have : Ensures skipComma l (fun a rest => a = false ∧ rest = l) (fun _ => False) := by
    simp [h]
  obtain ⟨a, rest, hrun, rfl, rfl⟩ := this.ok
  exact hrun

/-- A name is read. -/
theorem identifier_ok {finish : Position} {what : Expectation} (h : kindOf l = .identifier) :
  identifier finish what l = .ok (wordOf l) l.tail
  := by
  have : Ensures (identifier finish what) l (fun a rest => a = wordOf l ∧ rest = l.tail)
      (fun _ => False)
    := by
    simp [h]
  obtain ⟨a, rest, hrun, rfl, rfl⟩ := this.ok
  exact hrun

/-- A run that cannot succeed does not. -/
theorem Ensures.not_ok {p : Parse α} {E : List Token → Prop}
    (h : Ensures p l (fun _ _ => False) E) (a : α) (rest : List Token) :
  p l ≠ .ok a rest
  := by
  intro hp
  unfold Ensures at h
  rw [hp] at h
  exact h

/-- What follows a semicolon or none. -/
theorem skipSemicolon_bind (f : Unit → Parse α) (l : List Token) :
  (skipSemicolon >>= f) l = f () (dropSemicolon l)
  := bind_ok (skipSemicolon_ok l)

/-- What succeeds behind an expected token has met it. -/
theorem expect_bind_eq_ok {finish : Position} {wanted : TokenKind} {what : Expectation}
    {f : Unit → Parse α} {a : α} :
  (expect finish wanted what >>= f) l = .ok a rest
    ↔ kindOf l = wanted ∧ f () l.tail = .ok a rest
  := by
  by_cases h : kindOf l = wanted
  · rw [bind_ok (expect_ok h)]
    simp [h]
  · have hnot : Ensures (expect finish wanted what >>= f) l (fun _ _ => False) (fun _ => True) := by
      simp [h]
    simp only [h, false_and, iff_false]
    exact hnot.not_ok a rest

/-- What succeeds behind a name has met it. -/
theorem identifier_bind_eq_ok {finish : Position} {what : Expectation} {f : String → Parse α}
    {a : α} :
  (identifier finish what >>= f) l = .ok a rest
    ↔ kindOf l = .identifier ∧ f (wordOf l) l.tail = .ok a rest
  := by
  by_cases h : kindOf l = .identifier
  · rw [bind_ok (identifier_ok h)]
    simp [h]
  · have hnot : Ensures (identifier finish what >>= f) l (fun _ _ => False) (fun _ => True) := by
      simp [h]
    simp only [h, false_and, iff_false]
    exact hnot.not_ok a rest

end

end Parse

end Scriptlet
