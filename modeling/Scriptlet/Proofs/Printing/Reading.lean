import Scriptlet.Proofs.Parsing.Rule
import Scriptlet.Proofs.Printing.Print
import Scriptlet.Proofs.Tree.Map

/-!
# Reading

What the rules of the grammar make of tokens that all stand at the start of the source, given
enough fuel.  There is one lemma for each step of a rule that printed words call for.
-/

namespace Scriptlet

/-- The tokens that words are read as. -/
def PrintedWord.tokensOf (words : List PrintedWord) : List Token :=
  words.flatMap PrintedWord.tokens

@[simp] theorem PrintedWord.tokensOf_nil :
  PrintedWord.tokensOf [] = []
  := rfl

@[simp] theorem PrintedWord.tokensOf_cons (w : PrintedWord) (words : List PrintedWord) :
  PrintedWord.tokensOf (w :: words) = w.tokens ++ PrintedWord.tokensOf words
  := List.flatMap_cons

/-- Words one after the other are read as their tokens one after the other. -/
@[simp] theorem PrintedWord.tokensOf_append (words words' : List PrintedWord) :
  PrintedWord.tokensOf (words ++ words') = PrintedWord.tokensOf words ++ PrintedWord.tokensOf words'
  := List.flatMap_append

namespace Parse

/-- The token of a kind that says all of it. -/
def mark (kind : TokenKind) : Token :=
  ⟨kind, kind.written, .start⟩

@[simp] theorem mark_kind (kind : TokenKind) :
  (mark kind).kind = kind
  := rfl

@[simp] theorem mark_position (kind : TokenKind) :
  (mark kind).position = .start
  := rfl

/-- With enough fuel, a rule makes `a` of the tokens `l` and leaves `rest`. -/
def Reads (r : Rule) (l : List Token) (a : r.Result) (rest : List Token) : Prop :=
  ∃ n₀, ∀ n, n₀ ≤ n → r.run .start n l = .ok a rest

variable {l m rest : List Token}

/-- A rule reads what it reads with one more than any fuel that is large enough. -/
theorem reads_succ {r : Rule} {a : r.Result} (n₀ : Nat)
    (h : ∀ n, n₀ ≤ n → r.run .start (n + 1) l = .ok a rest) :
  Reads r l a rest
  := by
  use n₀ + 1
  intro n hn
  obtain ⟨n, rfl⟩ : ∃ j, n = j + 1 := ⟨n - 1, by omega⟩
  exact h n (by omega)

/-- The token that is expected is taken, and reading goes on behind it. -/
theorem expect_bind {α : Type} {finish : Position} {what : Expectation} {f : Unit → Parse α}
    (kind : TokenKind) (l : List Token) :
  (expect finish kind what >>= f) (mark kind :: l) = f () l
  := bind_ok (expect_ok rfl)

/-- A name is taken, and reading goes on with it. -/
theorem identifier_bind {α : Type} {finish : Position} {what : Expectation}
    {f : String → Parse α} (x : String) (p : Position) (l : List Token) :
  (identifier finish what >>= f) (⟨.identifier, x, p⟩ :: l) = f x l
  := bind_ok (identifier_ok rfl)

/-- Whether a token of a kind can neither go on with an expression nor start one. -/
def closing (kind : TokenKind) : Bool :=
  [.rightParen, .rightBracket, .rightBrace, .comma, .colon, .semicolon].contains kind

/-! ### Operands, and what goes on with them -/

section

variable {e a left right : Expr} {level : Nat}

/-- Without a parenthesis or a bracket an operand ends. -/
theorem reads_suffixes_stop (hparen : kindOf l ≠ .leftParen) (hbracket : kindOf l ≠ .leftBracket) :
  Reads (.suffixes e) l e l
  := by
  apply reads_succ 0
  intro n _
  show Parse.suffixes .start (n + 1) e l = _
  rw [Parse.suffixes, here_bind, kind_bind]
  generalize kindOf l = k at hparen hbracket
  split
  · contradiction
  · contradiction
  · rfl

/-- In parentheses behind an operand there are the arguments of a call, and behind them the operand
may go on. -/
theorem reads_suffixes_call {args : List Expr}
    (h : Reads (.expressions .rightParen) l args (mark .rightParen :: m))
    (h' : Reads (.suffixes (.call .start e args)) m a rest) :
  Reads (.suffixes e) (mark .leftParen :: l) a rest
  := by
  obtain ⟨n₁, h⟩ := h
  obtain ⟨n₂, h'⟩ := h'
  apply reads_succ (max n₁ n₂)
  intro n hn
  show Parse.suffixes .start (n + 1) e (mark .leftParen :: l) = _
  rw [Parse.suffixes, here_bind, kind_bind]
  simp only [kindOf_cons, hereOf_cons, mark_kind, mark_position, advance_bind, List.tail_cons]
  rw [bind_ok (h n (by omega)), expect_bind]
  exact h' n (by omega)

/-- In brackets behind an operand there is an index, and behind it the operand may go on. -/
theorem reads_suffixes_index {i : Expr}
    (h : Reads (.binary assignLevel) l i (mark .rightBracket :: m))
    (h' : Reads (.suffixes (.index .start e i)) m a rest) :
  Reads (.suffixes e) (mark .leftBracket :: l) a rest
  := by
  obtain ⟨n₁, h⟩ := h
  obtain ⟨n₂, h'⟩ := h'
  apply reads_succ (max n₁ n₂)
  intro n hn
  show Parse.suffixes .start (n + 1) e (mark .leftBracket :: l) = _
  rw [Parse.suffixes, here_bind, kind_bind]
  simp only [kindOf_cons, hereOf_cons, mark_kind, mark_position, advance_bind, List.tail_cons]
  rw [bind_ok (h n (by omega)), expect_bind]
  exact h' n (by omega)

/-- An operand is followed by its calls and indices. -/
theorem reads_suffixed (h : Reads .primary l e m) (h' : Reads (.suffixes e) m a rest) :
  Reads .suffixed l a rest
  := by
  obtain ⟨n₁, h⟩ := h
  obtain ⟨n₂, h'⟩ := h'
  apply reads_succ (max n₁ n₂)
  intro n hn
  show Parse.suffixed .start (n + 1) l = _
  rw [Parse.suffixed, bind_ok (h n (by omega))]
  exact h' n (by omega)

/-- Without an operator in front an operand is read as it is. -/
theorem reads_unary_suffixed (hl : UnaryOp.ofToken? (kindOf l) = none)
    (h : Reads .suffixed l a rest) :
  Reads .unary l a rest
  := by
  obtain ⟨n₁, h⟩ := h
  apply reads_succ n₁
  intro n hn
  show Parse.unary .start (n + 1) l = _
  rw [Parse.unary, here_bind, kind_bind]
  simp only [hl]
  exact h n hn

/-- The operators `-`, `!` and `typeof` are followed by an operand that may have such an operator
itself. -/
theorem reads_unary_operator (op : UnaryOp) (hthrow : op ≠ .throw) (hdelete : op ≠ .delete)
    (h : Reads .unary l e rest) :
  Reads .unary (mark op.kind :: l) (.unary .start op e) rest
  := by
  obtain ⟨n₁, h⟩ := h
  apply reads_succ n₁
  intro n hn
  show Parse.unary .start (n + 1) (mark op.kind :: l) = _
  have h : (Parse.unary .start n >>= fun e => pure (Expr.unary .start op e)) l
      = .ok (Expr.unary .start op e) rest := bind_ok (h n hn)
  rw [Parse.unary, here_bind, kind_bind]
  cases op with
  | throw => contradiction
  | delete => contradiction
  | _ => exact h

/-- The word `throw` is followed by an expression of any level. -/
theorem reads_unary_throw (h : Reads (.binary assignLevel) l e rest) :
  Reads .unary (mark .throwWord :: l) (.unary .start .throw e) rest
  := by
  obtain ⟨n₁, h⟩ := h
  apply reads_succ n₁
  intro n hn
  show Parse.unary .start (n + 1) (mark .throwWord :: l) = _
  have h : (Parse.binary .start n assignLevel >>= fun e => pure (Expr.unary .start .throw e)) l
      = .ok (Expr.unary .start .throw e) rest := bind_ok (h n hn)
  rw [Parse.unary, here_bind, kind_bind]
  exact h

/-- The word `delete` is followed by a name. -/
theorem reads_unary_delete (x : String) :
  Reads .unary (mark .deleteWord :: ⟨.identifier, x, .start⟩ :: rest)
    (.unary .start .delete (.name .start x)) rest
  := by
  apply reads_succ 0
  intro n _
  show Parse.unary .start (n + 1) _ = _
  rw [Parse.unary, here_bind, kind_bind]
  rfl

/-- An expression ends in front of what is neither an operator nor `=`. -/
theorem reads_binaryRest_stop (hop : BinaryOp.ofToken? (kindOf l) = none)
    (hassign : kindOf l ≠ .assign) :
  Reads (.binaryRest level left) l left l
  := by
  apply reads_succ 0
  intro n _
  show Parse.binaryRest .start (n + 1) level left l = _
  rw [Parse.binaryRest, kind_bind]
  simp only [hassign, hop, ↓reduceIte]
  rfl

/-- An operator that binds no more loosely than the level takes what is left of it and the operand
that is right of it, and the expression goes on. -/
theorem reads_binaryRest_operator (op : BinaryOp) (hlevel : level ≤ op.level)
    (h : Reads (.binary op.rightLevel) l right m)
    (h' : Reads (.binaryRest level (.binary .start op left right)) m a rest) :
  Reads (.binaryRest level left) (mark op.kind :: l) a rest
  := by
  obtain ⟨n₁, h⟩ := h
  obtain ⟨n₂, h'⟩ := h'
  apply reads_succ (max n₁ n₂)
  intro n hn
  show Parse.binaryRest .start (n + 1) level left (mark op.kind :: l) = _
  have hassign : op.kind ≠ .assign := by
    cases op
    all_goals rintro ⟨⟩
  have hop : BinaryOp.ofToken? op.kind = some op := by
    cases op
    all_goals rfl
  rw [Parse.binaryRest, kind_bind]
  simp only [kindOf_cons, mark_kind, hassign, hop, ↓reduceIte, Nat.not_lt.mpr hlevel, here_bind,
    hereOf_cons, mark_position, advance_bind, List.tail_cons]
  rw [bind_ok (h n (by omega))]
  exact h' n (by omega)

/-- An `=` behind a name takes the expression right of it, at the level of assignments. -/
theorem reads_binaryRest_assign {x : String} {value : Expr}
    (h : Reads (.binary assignLevel) l value m)
    (h' : Reads (.binaryRest assignLevel (.assign .start x value)) m a rest) :
  Reads (.binaryRest assignLevel (.name .start x)) (mark .assign :: l) a rest
  := by
  obtain ⟨n₁, h⟩ := h
  obtain ⟨n₂, h'⟩ := h'
  apply reads_succ (max n₁ n₂ + 1)
  intro n hn
  obtain ⟨n, rfl⟩ : ∃ j, n = j + 1 := ⟨n - 1, by omega⟩
  show Parse.binaryRest .start (n + 2) assignLevel _ (mark .assign :: l) = _
  rw [Parse.binaryRest, kind_bind]
  simp only [kindOf_cons, mark_kind, ↓reduceIte, Nat.lt_irrefl]
  rw [Parse.assignment, here_bind, advance_bind]
  simp only [List.tail_cons]
  rw [bind_ok (h n (by omega))]
  exact h' n (by omega)

/-- An expression is an operand and what goes on with it at its level. -/
theorem reads_binary (h : Reads .unary l left m) (h' : Reads (.binaryRest level left) m a rest) :
  Reads (.binary level) l a rest
  := by
  obtain ⟨n₁, h⟩ := h
  obtain ⟨n₂, h'⟩ := h'
  apply reads_succ (max n₁ n₂)
  intro n hn
  show Parse.binary .start (n + 1) level l = _
  rw [Parse.binary, bind_ok (h n (by omega))]
  exact h' n (by omega)

end

/-! ### Single words -/

/-- A name is an expression. -/
theorem reads_primary_name (x : String) :
  Reads .primary (⟨.identifier, x, .start⟩ :: rest) (.name .start x) rest
  := reads_succ 0 fun _ _ => rfl

/-- Digits are read as the number that they write. -/
theorem reads_primary_digits (digits : List Char) :
  Reads .primary (⟨.number, String.ofList digits, .start⟩ :: rest)
    (.num .start (Numeral.value digits)) rest
  := by
  apply reads_succ 0
  intro n _
  show Parse.primary .start (n + 1) _ = _
  rw [Parse.primary, here_bind, kind_bind]
  simp only [kindOf_cons, word_bind, wordOf_cons, advance_bind, List.tail_cons, hereOf_cons,
    String.toList_ofList]
  rfl

/-- A string is an expression. -/
theorem reads_primary_string (text : String) :
  Reads .primary (⟨.string, text, .start⟩ :: rest) (.str .start text) rest
  := reads_succ 0 fun _ _ => rfl

/-- The words `true` and `false` are expressions. -/
theorem reads_primary_bool (b : Bool) :
  Reads .primary (mark (if b then .trueWord else .falseWord) :: rest) (.bool .start b) rest
  := by
  cases b
  · exact reads_succ 0 fun _ _ => rfl
  · exact reads_succ 0 fun _ _ => rfl

/-- The word `null` is an expression. -/
theorem reads_primary_null :
  Reads .primary (mark .nullWord :: rest) (.null .start) rest
  := reads_succ 0 fun _ _ => rfl

/-! ### Lists of expressions -/

section

variable {e a key value : Expr} {es : List Expr} {entries : List (Expr × Expr)}
  {stop : TokenKind}

/-- At the mark that ends a list there are no expressions. -/
theorem reads_expressions_nil (h : kindOf l = stop) :
  Reads (.expressions stop) l [] l
  := by
  apply reads_succ 0
  intro n _
  show Parse.expressions .start (n + 1) stop l = _
  rw [Parse.expressions, kind_bind]
  simp only [h, ↓reduceIte]
  rfl

/-- An expression without a comma behind it is the last one of its list. -/
theorem reads_expressions_last (hl : kindOf l ≠ stop) (hrest : kindOf rest ≠ .comma)
    (h : Reads (.binary assignLevel) l e rest) :
  Reads (.expressions stop) l [e] rest
  := by
  obtain ⟨n₁, h⟩ := h
  apply reads_succ n₁
  intro n hn
  show Parse.expressions .start (n + 1) stop l = _
  rw [Parse.expressions, kind_bind]
  simp only [hl, ↓reduceIte]
  rw [bind_ok (h n hn), bind_ok (skipComma_no hrest)]
  rfl

/-- Behind an expression and a comma the list goes on. -/
theorem reads_expressions_cons (hl : kindOf l ≠ stop)
    (h : Reads (.binary assignLevel) l e (mark .comma :: m))
    (h' : Reads (.expressions stop) m es rest) :
  Reads (.expressions stop) l (e :: es) rest
  := by
  obtain ⟨n₁, h⟩ := h
  obtain ⟨n₂, h'⟩ := h'
  apply reads_succ (max n₁ n₂)
  intro n hn
  show Parse.expressions .start (n + 1) stop l = _
  rw [Parse.expressions, kind_bind]
  simp only [hl, ↓reduceIte]
  rw [bind_ok (h n (by omega)), bind_ok (skipComma_yes rfl)]
  simp only [↓reduceIte, List.tail_cons]
  rw [bind_ok (h' n (by omega))]
  rfl

/-- What is not a name in front of a colon is read as an expression that is a key. -/
theorem reads_hashKey (hl : ¬ (kindOf l = .identifier ∧ kindOf l.tail = .colon))
    (h : Reads (.binary assignLevel) l e rest) :
  Reads .hashKey l e rest
  := by
  obtain ⟨n₁, h⟩ := h
  apply reads_succ n₁
  intro n hn
  show Parse.hashKey .start (n + 1) l = _
  rw [Parse.hashKey, kind_bind, secondKind_bind]
  simp only [hl, ↓reduceIte]
  exact h n hn

/-- At the closing brace there are no entries. -/
theorem reads_hashEntries_nil (h : kindOf l = .rightBrace) :
  Reads .hashEntries l [] l
  := by
  apply reads_succ 0
  intro n _
  show Parse.hashEntries .start (n + 1) l = _
  rw [Parse.hashEntries, kind_bind]
  simp only [h, ↓reduceIte]
  rfl

/-- An entry without a comma behind it is the last one of its hash. -/
theorem reads_hashEntries_last (hl : kindOf l ≠ .rightBrace) (hrest : kindOf rest ≠ .comma)
    (hkey : Reads .hashKey l key (mark .colon :: m))
    (hvalue : Reads (.binary assignLevel) m value rest) :
  Reads .hashEntries l [(key, value)] rest
  := by
  obtain ⟨n₁, hkey⟩ := hkey
  obtain ⟨n₂, hvalue⟩ := hvalue
  apply reads_succ (max n₁ n₂)
  intro n hn
  show Parse.hashEntries .start (n + 1) l = _
  rw [Parse.hashEntries, kind_bind]
  simp only [hl, ↓reduceIte]
  rw [bind_ok (hkey n (by omega)), expect_bind, bind_ok (hvalue n (by omega)),
    bind_ok (skipComma_no hrest)]
  rfl

/-- Behind an entry and a comma the hash goes on. -/
theorem reads_hashEntries_cons {m' : List Token} (hl : kindOf l ≠ .rightBrace)
    (hkey : Reads .hashKey l key (mark .colon :: m))
    (hvalue : Reads (.binary assignLevel) m value (mark .comma :: m'))
    (h' : Reads .hashEntries m' entries rest) :
  Reads .hashEntries l ((key, value) :: entries) rest
  := by
  obtain ⟨n₁, hkey⟩ := hkey
  obtain ⟨n₂, hvalue⟩ := hvalue
  obtain ⟨n₃, h'⟩ := h'
  apply reads_succ (max (max n₁ n₂) n₃)
  intro n hn
  show Parse.hashEntries .start (n + 1) l = _
  rw [Parse.hashEntries, kind_bind]
  simp only [hl, ↓reduceIte]
  rw [bind_ok (hkey n (by omega)), expect_bind, bind_ok (hvalue n (by omega)),
    bind_ok (skipComma_yes rfl)]
  simp only [↓reduceIte, List.tail_cons]
  rw [bind_ok (h' n (by omega))]
  rfl

end

/-! ### Expressions in parentheses, brackets and braces -/

section

variable {e a test : Expr} {es : List Expr} {entries : List (Expr × Expr)}
  {body yes no : List Stmt} {params : List String} {s : Stmt}

/-- An expression in parentheses is read as that expression. -/
theorem reads_primary_group (h : Reads (.binary assignLevel) l e (mark .rightParen :: rest)) :
  Reads .primary (mark .leftParen :: l) e rest
  := by
  obtain ⟨n₁, h⟩ := h
  apply reads_succ n₁
  intro n hn
  show Parse.primary .start (n + 1) (mark .leftParen :: l) = _
  rw [Parse.primary, here_bind, kind_bind]
  simp only [kindOf_cons, mark_kind, advance_bind, List.tail_cons]
  rw [bind_ok (h n hn), expect_bind]
  rfl

/-- Expressions in brackets are read as an array. -/
theorem reads_primary_array
    (h : Reads (.expressions .rightBracket) l es (mark .rightBracket :: rest)) :
  Reads .primary (mark .leftBracket :: l) (.array .start es) rest
  := by
  obtain ⟨n₁, h⟩ := h
  apply reads_succ n₁
  intro n hn
  show Parse.primary .start (n + 1) (mark .leftBracket :: l) = _
  rw [Parse.primary, here_bind, kind_bind]
  simp only [kindOf_cons, mark_kind, advance_bind, List.tail_cons]
  rw [bind_ok (h n hn), expect_bind]
  rfl

/-- Entries in braces are read as a hash. -/
theorem reads_primary_hash (h : Reads .hashEntries l entries (mark .rightBrace :: rest)) :
  Reads .primary (mark .leftBrace :: l) (.hash .start entries) rest
  := by
  obtain ⟨n₁, h⟩ := h
  apply reads_succ n₁
  intro n hn
  show Parse.primary .start (n + 1) (mark .leftBrace :: l) = _
  rw [Parse.primary, here_bind, kind_bind]
  simp only [kindOf_cons, mark_kind, advance_bind, List.tail_cons]
  rw [bind_ok (h n hn), expect_bind]
  rfl

/-- A condition stands in parentheses. -/
theorem reads_condition (keyword : String)
    (h : Reads (.binary assignLevel) l test (mark .rightParen :: rest)) :
  Reads (.condition keyword) (mark .leftParen :: l) test rest
  := by
  obtain ⟨n₁, h⟩ := h
  apply reads_succ n₁
  intro n hn
  show Parse.condition .start (n + 1) keyword (mark .leftParen :: l) = _
  rw [Parse.condition, expect_bind, bind_ok (h n hn), expect_bind]
  rfl

/-- A block begins with a brace. -/
theorem reads_block (h : Reads (.blockRest .start) l body rest) :
  Reads .block (mark .leftBrace :: l) body rest
  := by
  obtain ⟨n₁, h⟩ := h
  apply reads_succ n₁
  intro n hn
  show Parse.block .start (n + 1) (mark .leftBrace :: l) = _
  rw [Parse.block, here_bind, expect_bind]
  exact h n hn

/-- A `while` is a condition and a block. -/
theorem reads_primary_loop (htest : Reads (.condition "while") l test m)
    (hbody : Reads .block m body rest) :
  Reads .primary (mark .whileWord :: l) (.loop .start test body) rest
  := by
  obtain ⟨n₁, htest⟩ := htest
  obtain ⟨n₂, hbody⟩ := hbody
  apply reads_succ (max n₁ n₂)
  intro n hn
  show Parse.primary .start (n + 1) (mark .whileWord :: l) = _
  rw [Parse.primary, here_bind, kind_bind]
  simp only [kindOf_cons, mark_kind, advance_bind, List.tail_cons]
  rw [bind_ok (htest n (by omega)), bind_ok (hbody n (by omega))]
  rfl

/-- An expression that begins with `if` is read by the rule for it. -/
theorem reads_primary_conditional (h : Reads .conditional (mark .ifWord :: l) e rest) :
  Reads .primary (mark .ifWord :: l) e rest
  := by
  obtain ⟨n₁, h⟩ := h
  apply reads_succ n₁
  intro n hn
  show Parse.primary .start (n + 1) (mark .ifWord :: l) = _
  rw [Parse.primary, here_bind, kind_bind]
  simp only [kindOf_cons, mark_kind]
  exact h n hn

/-- An `if` is a condition and a block, when no `else` follows. -/
theorem reads_conditional (htest : Reads (.condition "if") l test m)
    (hyes : Reads .block m yes rest) (hrest : kindOf rest ≠ .elseWord) :
  Reads .conditional (mark .ifWord :: l) (.cond .start test yes none) rest
  := by
  obtain ⟨n₁, htest⟩ := htest
  obtain ⟨n₂, hyes⟩ := hyes
  apply reads_succ (max n₁ n₂)
  intro n hn
  show Parse.conditional .start (n + 1) (mark .ifWord :: l) = _
  rw [Parse.conditional, here_bind, advance_bind, List.tail_cons, bind_ok (htest n (by omega)),
    bind_ok (hyes n (by omega)), kind_bind]
  simp only [hrest, ↓reduceIte]
  rfl

/-- Behind the block of an `if`, an `else` is followed by a block of its own. -/
theorem reads_conditional_else {m' : List Token} (htest : Reads (.condition "if") l test m)
    (hyes : Reads .block m yes (mark .elseWord :: mark .leftBrace :: m'))
    (hno : Reads .block (mark .leftBrace :: m') no rest) :
  Reads .conditional (mark .ifWord :: l) (.cond .start test yes (some no)) rest
  := by
  obtain ⟨n₁, htest⟩ := htest
  obtain ⟨n₂, hyes⟩ := hyes
  obtain ⟨n₃, hno⟩ := hno
  apply reads_succ (max (max n₁ n₂) n₃)
  intro n hn
  show Parse.conditional .start (n + 1) (mark .ifWord :: l) = _
  rw [Parse.conditional, here_bind, advance_bind, List.tail_cons, bind_ok (htest n (by omega)),
    bind_ok (hyes n (by omega)), kind_bind]
  simp only [kindOf_cons, mark_kind, ↓reduceIte, advance_bind, List.tail_cons, kind_bind,
    reduceCtorEq]
  rw [bind_ok (hno n (by omega))]
  rfl

/-- A name without a comma behind it is the last parameter. -/
theorem reads_paramNames_last {found : List String} {x : String} (hx : x ∉ found)
    (hrest : kindOf rest ≠ .comma) :
  Reads (.paramNames found) (⟨.identifier, x, .start⟩ :: rest) (found ++ [x]) rest
  := by
  apply reads_succ 0
  intro n _
  show Parse.paramNames .start (n + 1) found _ = _
  rw [Parse.paramNames, here_bind, identifier_bind]
  simp only [hx, ↓reduceIte]
  rw [bind_ok (skipComma_no hrest)]
  rfl

/-- Behind a new name and a comma the parameters go on. -/
theorem reads_paramNames_cons {found names : List String} {x : String} (hx : x ∉ found)
    (h : Reads (.paramNames (found ++ [x])) l names rest) :
  Reads (.paramNames found) (⟨.identifier, x, .start⟩ :: mark .comma :: l) names rest
  := by
  obtain ⟨n₁, h⟩ := h
  apply reads_succ n₁
  intro n hn
  show Parse.paramNames .start (n + 1) found _ = _
  rw [Parse.paramNames, here_bind, identifier_bind]
  simp only [hx, ↓reduceIte]
  rw [bind_ok (skipComma_yes rfl)]
  exact h n hn

/-- At the closing parenthesis there are no parameters. -/
theorem reads_params_nil (h : kindOf l = .rightParen) :
  Reads .params l [] l
  := by
  use 0
  intro n _
  show Parse.params .start n l = _
  rw [Parse.params, kind_bind]
  simp only [h, ↓reduceIte]
  rfl

/-- Elsewhere the parameters are names. -/
theorem reads_params (hl : kindOf l ≠ .rightParen) (h : Reads (.paramNames []) l params rest) :
  Reads .params l params rest
  := by
  obtain ⟨n₁, h⟩ := h
  use n₁
  intro n hn
  show Parse.params .start n l = _
  rw [Parse.params, kind_bind]
  simp only [hl, ↓reduceIte]
  exact h n hn

/-- An expression that begins with `func` is read by the rule for functions. -/
theorem reads_primary_function (h : Reads (.function .start) l e rest) :
  Reads .primary (mark .funcWord :: l) e rest
  := by
  obtain ⟨n₁, h⟩ := h
  apply reads_succ n₁
  intro n hn
  show Parse.primary .start (n + 1) (mark .funcWord :: l) = _
  rw [Parse.primary, here_bind, kind_bind]
  simp only [kindOf_cons, mark_kind, advance_bind, List.tail_cons]
  exact h n hn

/-- A function without a name is its parameters in parentheses and a block. -/
theorem reads_function (hparams : Reads .params l params (mark .rightParen :: m))
    (hbody : Reads .block m body rest) :
  Reads (.function .start) (mark .leftParen :: l) (.func .start none params body) rest
  := by
  obtain ⟨n₁, hparams⟩ := hparams
  obtain ⟨n₂, hbody⟩ := hbody
  apply reads_succ (max n₁ n₂)
  intro n hn
  show Parse.function .start (n + 1) .start _ = _
  rw [Parse.function, kind_bind]
  simp only [kindOf_cons, mark_kind, reduceCtorEq, ↓reduceIte, pure_bind]
  rw [expect_bind, bind_ok (hparams n (by omega)), expect_bind, bind_ok (hbody n (by omega))]
  rfl

/-- A function with a name has it in front of its parameters. -/
theorem reads_function_named (x : String) (hparams : Reads .params l params (mark .rightParen :: m))
    (hbody : Reads .block m body rest) :
  Reads (.function .start) (⟨.identifier, x, .start⟩ :: mark .leftParen :: l)
    (.func .start (some x) params body) rest
  := by
  obtain ⟨n₁, hparams⟩ := hparams
  obtain ⟨n₂, hbody⟩ := hbody
  apply reads_succ (max n₁ n₂)
  intro n hn
  show Parse.function .start (n + 1) .start _ = _
  rw [Parse.function, kind_bind]
  simp only [kindOf_cons, ↓reduceIte, map_eq_pure_bind, bind_assoc, pure_bind]
  rw [identifier_bind, expect_bind, bind_ok (hparams n (by omega)), expect_bind,
    bind_ok (hbody n (by omega))]
  rfl

/-! ### Decorators -/

/-- An expression that begins with an `@` is read by the rule for decorators. -/
theorem reads_primary_decorated (hl : kindOf l = .decorator) (h : Reads .decorated l e rest) :
  Reads .primary l e rest
  := by
  obtain ⟨n₁, h⟩ := h
  apply reads_succ n₁
  intro n hn
  show Parse.primary .start (n + 1) l = _
  rw [Parse.primary, here_bind, kind_bind]
  simp only [hl]
  exact h n hn

/-- A decorator without arguments is a name, and a declaration follows it. -/
theorem reads_decorated (x : String) (hl : kindOf l ≠ .leftParen)
    (h : Reads .declaration l s rest) :
  Reads .decorated (⟨.decorator, "@", .start⟩ :: ⟨.identifier, x, .start⟩ :: l)
    (.decorated .start (.name .start x) s) rest
  := by
  obtain ⟨n₁, h⟩ := h
  apply reads_succ n₁
  intro n hn
  show Parse.decorated .start (n + 1) _ = _
  rw [Parse.decorated, here_bind, advance_bind, here_bind, List.tail_cons, identifier_bind,
    here_bind, kind_bind]
  simp only [hl, ↓reduceIte]
  rw [bind_ok (h n hn)]
  rfl

/-- A decorator with arguments is a call of a name, and a declaration follows it. -/
theorem reads_decorated_call (x : String)
    (hargs : Reads (.expressions .rightParen) l es (mark .rightParen :: m))
    (h : Reads .declaration m s rest) :
  Reads .decorated
    (⟨.decorator, "@", .start⟩ :: ⟨.identifier, x, .start⟩ :: mark .leftParen :: l)
    (.decorated .start (.call .start (.name .start x) es) s) rest
  := by
  obtain ⟨n₁, hargs⟩ := hargs
  obtain ⟨n₂, h⟩ := h
  apply reads_succ (max n₁ n₂)
  intro n hn
  show Parse.decorated .start (n + 1) _ = _
  rw [Parse.decorated, here_bind, advance_bind, here_bind, List.tail_cons, identifier_bind,
    here_bind, kind_bind]
  simp only [kindOf_cons, mark_kind, ↓reduceIte, advance_bind, List.tail_cons]
  rw [bind_ok (hargs n (by omega)), expect_bind, bind_ok (h n (by omega))]
  rfl

/-- A declaration that begins with `let` is read as that statement. -/
theorem reads_declaration_let (hl : kindOf l = .letWord) (h : Reads .letStatement l s rest) :
  Reads .declaration l s rest
  := by
  obtain ⟨n₁, h⟩ := h
  apply reads_succ n₁
  intro n hn
  show Parse.declaration .start (n + 1) l = _
  rw [Parse.declaration, kind_bind]
  simp only [hl]
  exact h n hn

/-- A declaration that begins with an `@` is decorated itself. -/
theorem reads_declaration_decorated (hl : kindOf l = .decorator)
    (hstart : hereOf .start l = .start) (h : Reads .decorated l e rest) :
  Reads .declaration l (.expr .start e) rest
  := by
  obtain ⟨n₁, h⟩ := h
  apply reads_succ n₁
  intro n hn
  show Parse.declaration .start (n + 1) l = _
  rw [Parse.declaration, kind_bind]
  simp only [hl]
  rw [here_bind, bind_ok (h n hn), hstart]
  rfl

/-! ### Statements -/

/-- A `let` takes a name, an `=` and a value, and leaves the semicolon. -/
theorem reads_letStatement (x : String) (he : e.anonymous = false)
    (h : Reads (.binary assignLevel) l e (mark .semicolon :: rest)) :
  Reads .letStatement (mark .letWord :: ⟨.identifier, x, .start⟩ :: mark .assign :: l)
    (.define .start x e) rest
  := by
  obtain ⟨n₁, h⟩ := h
  apply reads_succ n₁
  intro n hn
  show Parse.letStatement .start (n + 1) _ = _
  rw [Parse.letStatement, here_bind, advance_bind, List.tail_cons, identifier_bind, expect_bind,
    bind_ok (h n hn), skipSemicolon_bind, Expr.named_of_not_anonymous he]
  rfl

/-- A statement that begins with `let` is read by the rule for it. -/
theorem reads_statement_let (hl : kindOf l = .letWord) (h : Reads .letStatement l s rest) :
  Reads .statement l s rest
  := by
  obtain ⟨n₁, h⟩ := h
  apply reads_succ n₁
  intro n hn
  show Parse.statement .start (n + 1) l = _
  rw [Parse.statement, kind_bind]
  simp only [hl]
  exact h n hn

/-- A `return` in front of a semicolon has no value. -/
theorem reads_statement_return_none :
  Reads .statement (mark .returnWord :: mark .semicolon :: rest) (.ret .start none) rest
  := reads_succ 1 fun n hn => by
  obtain ⟨n, rfl⟩ : ∃ j, n = j + 1 := ⟨n - 1, by omega⟩
  rfl

/-- A `return` in front of an expression has it as its value. -/
theorem reads_statement_return (hl : closing (kindOf l) = false) (hnil : kindOf l ≠ .eof)
    (h : Reads (.binary assignLevel) l e (mark .semicolon :: rest)) :
  Reads .statement (mark .returnWord :: l) (.ret .start (some e)) rest
  := by
  obtain ⟨n₁, h⟩ := h
  apply reads_succ (n₁ + 1)
  intro n hn
  obtain ⟨n, rfl⟩ : ∃ j, n = j + 1 := ⟨n - 1, by omega⟩
  show Parse.statement .start (n + 2) _ = _
  rw [Parse.statement, kind_bind]
  simp only [kindOf_cons, mark_kind]
  rw [Parse.returnStatement, here_bind, advance_bind, kind_bind]
  simp only [List.tail_cons]
  have h : (Parse.binary .start n assignLevel >>= fun e => skipSemicolon >>= fun _ =>
      pure (Stmt.ret .start (some e))) l = .ok (.ret .start (some e)) rest := by
    rw [bind_ok (h n (by omega)), skipSemicolon_bind]
    rfl
  generalize kindOf l = k at hl hnil
  split
  · cases hl
  · cases hl
  · contradiction
  · exact h

/-- A statement that begins with a brace is a block. -/
theorem reads_statement_block (h : Reads .block (mark .leftBrace :: l) body rest) :
  Reads .statement (mark .leftBrace :: l) (.block .start body) rest
  := by
  obtain ⟨n₁, h⟩ := h
  apply reads_succ n₁
  intro n hn
  show Parse.statement .start (n + 1) (mark .leftBrace :: l) = _
  rw [Parse.statement, kind_bind]
  simp only [kindOf_cons, mark_kind]
  rw [here_bind, bind_ok (h n hn)]
  rfl

/-- A `use` takes a string. -/
theorem reads_statement_use (unit : String) :
  Reads .statement (mark .useWord :: ⟨.string, unit, .start⟩ :: mark .semicolon :: rest)
    (.use .start unit) rest
  := reads_succ 0 fun _ _ => rfl

/-- Whether a token of a kind starts a statement that is an expression. -/
def operand (kind : TokenKind) : Bool :=
  [.identifier, .number, .string, .trueWord, .falseWord, .nullWord, .leftParen].contains kind

/-- A statement that starts with an operand is an expression. -/
theorem statement_expr {finish : Position} {n : Nat} (hl : operand (kindOf l) = true)
    (h : Parse.binary finish n assignLevel l = .ok e rest) :
  Parse.statement finish (n + 2) l = .ok (.expr (hereOf finish l) e) (dropSemicolon rest)
  := by
  have h : Parse.exprStatement finish (n + 1) l
      = .ok (.expr (hereOf finish l) e) (dropSemicolon rest) := by
    rw [Parse.exprStatement, here_bind, bind_ok h, skipSemicolon_bind]
    rfl
  rw [Parse.statement, kind_bind]
  generalize kindOf l = k at hl
  split
  · cases hl
  · cases hl
  · cases hl
  · cases hl
  · cases hl
  · exact h

/-- A statement that begins with an operand is an expression. -/
theorem reads_statement_expr (hl : operand (kindOf l) = true) (hstart : hereOf .start l = .start)
    (h : Reads (.binary assignLevel) l e (mark .semicolon :: rest)) :
  Reads .statement l (.expr .start e) rest
  := by
  obtain ⟨n₁, h⟩ := h
  apply reads_succ (n₁ + 1)
  intro n hn
  obtain ⟨n, rfl⟩ : ∃ j, n = j + 1 := ⟨n - 1, by omega⟩
  show Parse.statement .start (n + 2) l = _
  rw [statement_expr hl (h n (by omega)), hstart]
  rfl

/-- A block ends at its closing brace. -/
theorem reads_blockRest_nil :
  Reads (.blockRest .start) (mark .rightBrace :: rest) [] rest
  := reads_succ 0 fun _ _ => rfl

/-- A semicolon between statements is passed over. -/
theorem reads_blockRest_semicolon (h : Reads (.blockRest .start) l body rest) :
  Reads (.blockRest .start) (mark .semicolon :: l) body rest
  := by
  obtain ⟨n₁, h⟩ := h
  apply reads_succ n₁
  intro n hn
  exact h n hn

/-- A block goes on with a statement elsewhere. -/
theorem reads_blockRest_cons
    (hl : kindOf l ≠ .rightBrace ∧ kindOf l ≠ .eof ∧ kindOf l ≠ .semicolon)
    (h : Reads .statement l s m) (h' : Reads (.blockRest .start) m body rest) :
  Reads (.blockRest .start) l (s :: body) rest
  := by
  obtain ⟨n₁, h⟩ := h
  obtain ⟨n₂, h'⟩ := h'
  apply reads_succ (max n₁ n₂)
  intro n hn
  show Parse.blockRest .start (n + 1) .start l = _
  have h : (Parse.statement .start n >>= fun s => Parse.blockRest .start n .start >>= fun rest =>
      pure (s :: rest)) l = .ok (s :: body) rest := by
    rw [bind_ok (h n (by omega)), bind_ok (h' n (by omega))]
    rfl
  rw [Parse.blockRest, kind_bind]
  generalize kindOf l = k at hl
  split
  · exact absurd rfl hl.1
  · exact absurd rfl hl.2.1
  · exact absurd rfl hl.2.2
  · exact h

end

end Parse

end Scriptlet
