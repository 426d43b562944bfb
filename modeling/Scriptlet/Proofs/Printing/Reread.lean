import Scriptlet.Proofs.Printing.Operand

/-!
# Printed trees are read back

Whatever stands behind the printed words of a well-formed tree, they are read as that tree, up to
its positions and the digits of its numbers.  There is one lemma for each kind of node, and the
trees themselves go by induction.
-/

namespace Scriptlet

open Parse
open PrintedWord (fixed grouped bracketed braced commas tokensOf)

variable {style : Style}

namespace Expr

variable {pos : Position} {e left right test : Expr} {es : List Expr} {yes no body : List Stmt}

/-- Whether a function has no name does not depend on positions and digits. -/
@[simp] theorem anonymous_map (f : Position → Position) (g : Nat → Nat) (e : Expr) :
  (e.map f g).anonymous = e.anonymous
  := by
  rcases e with _ | _ | _ | _ | _ | _ | _ | ⟨_, _, _, _ | _⟩ | _ | ⟨_, _ | _, _, _⟩ | _ | _ | _ |
    _ | _ | _
  all_goals simp [Expr.map, Expr.anonymous]

/-- A name is read back. -/
theorem operand_name (x : String) :
  (Expr.name pos x).Operand style
  := fun _ => reads_primary_name x

/-- A number is read back as the number that the digits of the style write. -/
theorem operand_num (n : Nat) :
  (Expr.num pos n).Operand style
  := fun _ => reads_primary_digits (style.numeral n)

/-- A string is read back. -/
theorem operand_str (text : String) :
  (Expr.str pos text).Operand style
  := fun _ => reads_primary_string text

/-- The words `true` and `false` are read back. -/
theorem operand_bool (b : Bool) :
  (Expr.bool pos b).Operand style
  := fun _ => reads_primary_bool b

/-- The word `null` is read back. -/
theorem operand_null :
  (Expr.null pos).Operand style
  := fun _ => reads_primary_null

/-- A unary operator in front of an operand is read back; `delete` only stands in front of a
name. -/
theorem operand_unary {op : UnaryOp} (h : e.Operand style)
    (hdelete : op = .delete → e.isName = true) :
  (Expr.unary pos op e).Operand style
  := by
  apply operand_of_inner rfl
  intro rest
  have hinner : tokensOf ((Expr.unary pos op e).inner style) ++ mark .rightParen :: rest
      = mark op.kind :: (tokensOf (e.words style) ++ mark .rightParen :: rest) := by
    simp [Expr.inner, Expr.words]
  rw [hinner]
  have hunary : Reads .unary (tokensOf (e.words style) ++ mark .rightParen :: rest)
    (e.reread style) (mark .rightParen :: rest) := h.unary ⟨by rintro ⟨⟩, by rintro ⟨⟩⟩
  apply reads_binary_of_unary _ rfl
  by_cases hthrow : op = .throw
  · subst hthrow
    exact reads_unary_throw (h.binary rfl _)
  · by_cases hop : op = .delete
    · subst hop
      cases e with
      | name pos' x => exact reads_unary_delete x
      | _ => cases hdelete rfl
    · exact reads_unary_operator op hthrow hop hunary

/-- Two operands with an operator between them are read back, whatever the level of the operator:
they are printed in parentheses. -/
theorem operand_binary {op : BinaryOp} (hleft : left.Operand style) (hright : right.Operand style) :
  (Expr.binary pos op left right).Operand style
  := by
  apply operand_of_inner rfl
  intro rest
  have hinner : tokensOf ((Expr.binary pos op left right).inner style) ++ mark .rightParen :: rest
      = tokensOf (left.words style) ++ mark op.kind
        :: (tokensOf (right.words style) ++ mark .rightParen :: rest) := by
    simp [Expr.inner, Expr.words]
  rw [hinner]
  have hparen : op.kind ≠ .leftParen ∧ op.kind ≠ .leftBracket := by
    cases op
    all_goals exact ⟨by rintro ⟨⟩, by rintro ⟨⟩⟩
  exact reads_binary (hleft.unary hparen) (reads_binaryRest_operator op (Nat.zero_le _)
    (hright.binary rfl _) (reads_binaryRest_stop rfl (by rintro ⟨⟩)))

/-- An `if` without `else` is read back if its test and its statements are. -/
theorem operand_cond (htest : test.Operand style) (hyes : ∀ s ∈ yes, s.Sentence style) :
  (Expr.cond pos test yes none).Operand style
  := by
  apply operand_of_primary rfl (fun _ => rfl)
  intro rest
  have hinner : tokensOf ((Expr.cond pos test yes none).inner style) ++ mark .rightParen :: rest
      = mark .ifWord :: mark .leftParen :: (tokensOf (test.words style) ++ mark .rightParen
        :: (tokensOf (braced (Stmt.wordsAll style yes)) ++ mark .rightParen :: rest)) := by
    simp [Expr.inner, Expr.words]
  rw [hinner]
  apply reads_primary_conditional
  exact reads_conditional (reads_condition "if" (htest.binary rfl _)) (reads_braced hyes)
    (by rintro ⟨⟩)

/-- An `if` with `else` is read back if its test and the statements of both blocks are. -/
theorem operand_cond_else (htest : test.Operand style) (hyes : ∀ s ∈ yes, s.Sentence style)
    (hno : ∀ s ∈ no, s.Sentence style) :
  (Expr.cond pos test yes (some no)).Operand style
  := by
  apply operand_of_primary rfl (fun _ => rfl)
  intro rest
  have hinner :
    tokensOf ((Expr.cond pos test yes (some no)).inner style) ++ mark .rightParen :: rest
      = mark .ifWord :: mark .leftParen :: (tokensOf (test.words style) ++ mark .rightParen
        :: (tokensOf (braced (Stmt.wordsAll style yes)) ++ mark .elseWord
          :: (tokensOf (braced (Stmt.wordsAll style no)) ++ mark .rightParen :: rest)))
    := by
    simp [Expr.inner, Expr.words]
  rw [hinner]
  apply reads_primary_conditional
  exact reads_conditional_else (reads_condition "if" (htest.binary rfl _)) (reads_braced hyes)
    (reads_braced hno)

/-- A `while` is read back if its test and its statements are. -/
theorem operand_loop (htest : test.Operand style) (hbody : ∀ s ∈ body, s.Sentence style) :
  (Expr.loop pos test body).Operand style
  := by
  apply operand_of_primary rfl (fun _ => rfl)
  intro rest
  have hinner : tokensOf ((Expr.loop pos test body).inner style) ++ mark .rightParen :: rest
      = mark .whileWord :: mark .leftParen :: (tokensOf (test.words style) ++ mark .rightParen
        :: (tokensOf (braced (Stmt.wordsAll style body)) ++ mark .rightParen :: rest)) := by
    simp [Expr.inner, Expr.words]
  rw [hinner]
  exact reads_primary_loop (reads_condition "while" (htest.binary rfl _)) (reads_braced hbody)

/-- Names with commas between them are read as further parameters, as none of them is among those
that have been read. -/
theorem reads_names {found : List String} (x : String) {names : List String}
    (h : (found ++ x :: names).Nodup) (rest : List Token) :
  Reads (.paramNames found)
    (tokensOf (commas ((x :: names).map fun y => [.name y])) ++ mark .rightParen :: rest)
    (found ++ x :: names) (mark .rightParen :: rest)
  := by
  have hx : x ∉ found := by
    rw [List.nodup_append] at h
    exact fun hx => h.2.2 x hx x List.mem_cons_self rfl
  induction names generalizing found x with
  | nil => exact reads_paramNames_last hx (by rintro ⟨⟩)
  | cons y names ih =>
      rw [List.append_cons] at h
      have hy : y ∉ found ++ [x] := by
        rw [List.nodup_append] at h
        exact fun hy => h.2.2 y hy y List.mem_cons_self rfl
      have := reads_paramNames_cons hx (ih y h hy)
      simpa [commas] using this

/-- The words of distinct parameters are read as these parameters, up to the parenthesis. -/
theorem reads_params_words {params : List String} (h : params.Nodup) (rest : List Token) :
  Reads .params
    (tokensOf (commas (params.map fun x => [.name x])) ++ mark .rightParen :: rest) params
    (mark .rightParen :: rest)
  := by
  cases params with
  | nil => exact reads_params_nil rfl
  | cons x names =>
      have hnames : Reads (.paramNames [])
        (tokensOf (commas ((x :: names).map fun y => [.name y])) ++ mark .rightParen :: rest)
        (x :: names) (mark .rightParen :: rest) := reads_names x h rest
      apply reads_params _ hnames
      cases names with
      | nil => rintro ⟨⟩
      | cons y names => rintro ⟨⟩

/-- A function with distinct parameters is read back if the statements of its body are. -/
theorem operand_func {name : Option String} {params : List String} (hparams : params.Nodup)
    (hbody : ∀ s ∈ body, s.Sentence style) :
  (Expr.func pos name params body).Operand style
  := by
  apply operand_of_primary rfl (fun _ => rfl)
  intro rest
  cases name with
  | none =>
      have hinner :
        tokensOf ((Expr.func pos none params body).inner style) ++ mark .rightParen :: rest
          = mark .funcWord :: mark .leftParen
            :: (tokensOf (commas (params.map fun x => [.name x])) ++ mark .rightParen
              :: (tokensOf (braced (Stmt.wordsAll style body)) ++ mark .rightParen :: rest))
        := by
        simp [Expr.inner]
      rw [hinner]
      apply reads_primary_function
      exact reads_function (reads_params_words hparams _) (reads_braced hbody)
  | some x =>
      have hinner :
        tokensOf ((Expr.func pos (some x) params body).inner style) ++ mark .rightParen :: rest
          = mark .funcWord :: ⟨.identifier, x, .start⟩ :: mark .leftParen
            :: (tokensOf (commas (params.map fun x => [.name x])) ++ mark .rightParen
              :: (tokensOf (braced (Stmt.wordsAll style body)) ++ mark .rightParen :: rest))
        := by
        simp [Expr.inner]
      rw [hinner]
      apply reads_primary_function
      exact reads_function_named x (reads_params_words hparams _) (reads_braced hbody)

/-- A compound expression is read back if between its parentheses it is read as an operand with
calls and indices behind it. -/
theorem operand_of_suffixed (ha : e.isAtom = false)
    (hl : ∀ rest, UnaryOp.ofToken? (kindOf (tokensOf (e.inner style) ++ rest)) = none)
    (h : ∀ rest, Reads .suffixed (tokensOf (e.inner style) ++ mark .rightParen :: rest)
      (e.reread style) (mark .rightParen :: rest)) :
  e.Operand style
  := by
  apply operand_of_inner ha
  intro rest
  exact reads_binary_of_unary (reads_unary_suffixed (hl _) (h rest)) rfl _

/-- A call is read back if what is called and the arguments are. -/
theorem operand_call (h : e.Operand style) (hes : ∀ a ∈ es, a.Operand style) :
  (Expr.call pos e es).Operand style
  := by
  have hinner (rest : List Token) : tokensOf ((Expr.call pos e es).inner style) ++ rest
      = tokensOf (e.words style) ++ mark .leftParen
        :: (tokensOf (commas (Expr.innerAll style es)) ++ mark .rightParen :: rest) := by
    simp [Expr.inner, Expr.words]
  apply operand_of_suffixed rfl
  · intro rest
    rw [hinner]
    exact ofToken?_of_operand (e.operand_words _).1
  · intro rest
    rw [hinner]
    exact reads_suffixed (h _) (reads_suffixes_call (reads_commas hes (.inl rfl))
      (reads_suffixes_stop (by rintro ⟨⟩) (by rintro ⟨⟩)))

/-- An indexed expression is read back if both of its parts are. -/
theorem operand_index (h : e.Operand style) (hright : right.Operand style) :
  (Expr.index pos e right).Operand style
  := by
  have hinner (rest : List Token) : tokensOf ((Expr.index pos e right).inner style) ++ rest
      = tokensOf (e.words style) ++ mark .leftBracket
        :: (tokensOf (right.words style) ++ mark .rightBracket :: rest) := by
    simp [Expr.inner, Expr.words]
  apply operand_of_suffixed rfl
  · intro rest
    rw [hinner]
    exact ofToken?_of_operand (e.operand_words _).1
  · intro rest
    rw [hinner]
    exact reads_suffixed (h _) (reads_suffixes_index (hright.binary rfl _)
      (reads_suffixes_stop (by rintro ⟨⟩) (by rintro ⟨⟩)))

/-- An array is read back if its elements are. -/
theorem operand_array (hes : ∀ a ∈ es, a.Operand style) :
  (Expr.array pos es).Operand style
  := by
  apply operand_of_primary rfl (fun _ => rfl)
  intro rest
  have hinner : tokensOf ((Expr.array pos es).inner style) ++ mark .rightParen :: rest
      = mark .leftBracket :: (tokensOf (commas (Expr.innerAll style es)) ++ mark .rightBracket
        :: mark .rightParen :: rest) := by
    simp [Expr.inner]
  rw [hinner]
  exact reads_primary_array (reads_commas hes (.inr rfl))

/-- A hash is read back if its keys and values are and names that are keys stand in parentheses: a
bare name in front of a colon would be read as a string. -/
theorem operand_hash (hstyle : style.groupsKeys = true) {entries : List (Expr × Expr)}
    (h : ∀ entry ∈ entries, entry.1.Operand style ∧ entry.2.Operand style) :
  (Expr.hash pos entries).Operand style
  := by
  apply operand_of_primary rfl (fun _ => rfl)
  intro rest
  have hinner : tokensOf ((Expr.hash pos entries).inner style) ++ mark .rightParen :: rest
      = mark .leftBrace :: (tokensOf (commas (Expr.innerEntries style entries))
        ++ mark .rightBrace :: mark .rightParen :: rest) := by
    simp [Expr.inner]
  rw [hinner]
  exact reads_primary_hash (reads_entries hstyle h)

/-- An assignment is read back if its value is. -/
theorem operand_assign {x : String} (h : e.Operand style) :
  (Expr.assign pos x e).Operand style
  := by
  apply operand_of_inner rfl
  intro rest
  have hinner : tokensOf ((Expr.assign pos x e).inner style) ++ mark .rightParen :: rest
      = ⟨.identifier, x, .start⟩ :: mark .assign
        :: (tokensOf (e.words style) ++ mark .rightParen :: rest) := by
    simp [Expr.inner, Expr.words]
  rw [hinner]
  exact reads_binary
    (reads_unary_of_primary (reads_primary_name x) rfl ⟨by rintro ⟨⟩, by rintro ⟨⟩⟩)
    (reads_binaryRest_assign (h.binary rfl _) (reads_binaryRest_stop rfl (by rintro ⟨⟩)))

/-! ### Decorated declarations -/

/-- The words of a decorator begin with an `@`. -/
theorem kindOf_decoratorWords (h : e.IsDecorator) (rest : List Token) :
  kindOf (tokensOf (e.decoratorWords style) ++ rest) = .decorator
    ∧ hereOf .start (tokensOf (e.decoratorWords style) ++ rest) = .start
  := by
  cases e with
  | name pos x => exact ⟨rfl, rfl⟩
  | call pos callee args =>
      cases callee with
      | name pos' x => exact ⟨rfl, rfl⟩
      | _ => exact h.elim
  | _ => exact h.elim

end Expr

/-- The words of a declaration do not begin with a parenthesis, so they are not read as the
arguments of a decorator in front of them. -/
theorem Stmt.kindOf_declarationWords {s : Stmt} (h : s.IsDeclaration) (rest : List Token) :
  kindOf (tokensOf (s.declarationWords style) ++ rest) ≠ .leftParen
  := by
  cases s with
  | define pos x value => rintro ⟨⟩
  | expr pos value =>
      cases value with
      | decorated pos' decorator declaration =>
          have hwords :
            tokensOf (Stmt.declarationWords style
                (.expr pos (.decorated pos' decorator declaration))) ++ rest
            = tokensOf (decorator.decoratorWords style)
              ++ (tokensOf (declaration.declarationWords style) ++ rest) := by
            simp [Stmt.declarationWords, Expr.inner]
          rw [hwords, (Expr.kindOf_decoratorWords h.1 _).1]
          rintro ⟨⟩
      | _ => exact h.elim
  | _ => exact h.elim

namespace Expr

variable {pos : Position} {e : Expr}

/-- A name decorates whatever declaration is read back. -/
theorem decorates_name (x : String) :
  (Expr.name pos x).Decorates style
  := by
  intro s hs h rest
  have hwords :
    tokensOf ((Expr.name pos x).decoratorWords style ++ s.declarationWords style) ++ rest
      = ⟨.decorator, "@", .start⟩ :: ⟨.identifier, x, .start⟩
        :: (tokensOf (s.declarationWords style) ++ rest)
    := by
    simp [Expr.decoratorWords]
  rw [hwords]
  exact reads_decorated x (s.kindOf_declarationWords hs rest) (h rest)

/-- A call of a name decorates whatever declaration is read back, if its arguments are read back. -/
theorem decorates_call {pos' : Position} (x : String) {args : List Expr}
    (hargs : ∀ a ∈ args, a.Operand style) :
  (Expr.call pos (.name pos' x) args).Decorates style
  := by
  intro s _ h rest
  have hwords :
    tokensOf ((Expr.call pos (.name pos' x) args).decoratorWords style
        ++ s.declarationWords style) ++ rest
      = ⟨.decorator, "@", .start⟩ :: ⟨.identifier, x, .start⟩ :: mark .leftParen
        :: (tokensOf (commas (Expr.innerAll style args)) ++ mark .rightParen
          :: (tokensOf (s.declarationWords style) ++ rest))
    := by
    simp [Expr.decoratorWords]
  rw [hwords]
  exact reads_decorated_call x (reads_commas hargs (.inl rfl)) (h rest)

/-- A decorated declaration is read back in parentheses. -/
theorem operand_decorated {s : Stmt} (he : e.IsDecorator) (h : e.Decorates style)
    (hs : s.IsDeclaration) (hdeclared : s.Declared style) :
  (Expr.decorated pos e s).Operand style
  := by
  have hinner (rest : List Token) : tokensOf ((Expr.decorated pos e s).inner style) ++ rest
      = tokensOf (e.decoratorWords style)
        ++ (tokensOf (s.declarationWords style) ++ rest) := by
    simp [Expr.inner]
  apply operand_of_primary rfl
  · intro rest
    rw [hinner, (kindOf_decoratorWords he _).1]
    rfl
  · intro rest
    have := h s hs hdeclared (mark .rightParen :: rest)
    rw [hinner]
    apply reads_primary_decorated (kindOf_decoratorWords he _).1
    show Reads .decorated _ (.decorated .start (e.reread style) (s.reread style)) _
    simpa using this

end Expr

namespace Stmt

variable {pos : Position} {value : Expr}

/-- A `let` is read back behind a decorator.  Its value has a name or is no function, as one without
would be given the name that is declared. -/
theorem declared_define {x : String} (ha : value.anonymous = false) (h : value.Operand style) :
  (Stmt.define pos x value).Declared style
  := by
  intro rest
  have hwords : tokensOf ((Stmt.define pos x value).declarationWords style) ++ rest
      = mark .letWord :: ⟨.identifier, x, .start⟩ :: mark .assign
        :: (tokensOf (value.words style) ++ mark .semicolon :: rest) := by
    simp [Stmt.declarationWords, Expr.words]
  rw [hwords]
  exact reads_declaration_let rfl
    (reads_letStatement x ((Expr.anonymous_map _ _ value).trans ha) (h.binary rfl _))

/-- A decorated declaration is read back behind a further decorator. -/
theorem declared_decorated {pos' : Position} {decorator : Expr} {declaration : Stmt}
    (hd : decorator.IsDecorator) (h : decorator.Decorates style)
    (hdeclaration : declaration.IsDeclaration) (hdeclared : declaration.Declared style) :
  (Stmt.expr pos (.decorated pos' decorator declaration)).Declared style
  := by
  intro rest
  have hwords :
    tokensOf (declarationWords style (.expr pos (.decorated pos' decorator declaration))) ++ rest
      = tokensOf (decorator.decoratorWords style)
        ++ (tokensOf (declaration.declarationWords style) ++ rest)
    := by
    simp [Stmt.declarationWords, Expr.inner]
  have := h declaration hdeclaration hdeclared rest
  rw [hwords]
  apply reads_declaration_decorated (Expr.kindOf_decoratorWords hd _).1
    (Expr.kindOf_decoratorWords hd _).2
  show Reads .decorated _
    (.decorated .start (decorator.reread style) (declaration.reread style)) _
  simpa using this

/-- A `let` is read back as a statement. -/
theorem sentence_define {x : String} (ha : value.anonymous = false) (h : value.Operand style) :
  (Stmt.define pos x value).Sentence style
  := by
  intro rest
  refine ⟨rest, ?_, .inl rfl⟩
  have hwords : tokensOf ((Stmt.define pos x value).words style) ++ rest
      = mark .letWord :: ⟨.identifier, x, .start⟩ :: mark .assign
        :: (tokensOf (value.words style) ++ mark .semicolon :: rest) := by
    simp [Stmt.words, Expr.words]
  rw [hwords]
  exact reads_statement_let rfl
    (reads_letStatement x ((Expr.anonymous_map _ _ value).trans ha) (h.binary rfl _))

/-- A `return` without a value is read back. -/
theorem sentence_ret_none :
  (Stmt.ret pos none).Sentence style
  := fun rest => ⟨rest, reads_statement_return_none, .inl rfl⟩

/-- A `return` is read back if its value is. -/
theorem sentence_ret (h : value.Operand style) :
  (Stmt.ret pos (some value)).Sentence style
  := by
  intro rest
  refine ⟨rest, ?_, .inl rfl⟩
  have hwords : tokensOf ((Stmt.ret pos (some value)).words style) ++ rest
      = mark .returnWord :: (tokensOf (value.words style) ++ mark .semicolon :: rest) := by
    simp [Stmt.words, Expr.words]
  rw [hwords]
  obtain ⟨hclosing, hnil⟩ := not_closing_of_operand
    (value.operand_words (mark .semicolon :: rest)).1
  exact reads_statement_return hclosing hnil (h.binary rfl _)

/-- An expression is read back as a statement. -/
theorem sentence_expr (h : value.Operand style) :
  (Stmt.expr pos value).Sentence style
  := by
  intro rest
  refine ⟨rest, ?_, .inl rfl⟩
  have hwords : tokensOf ((Stmt.expr pos value).words style) ++ rest
      = tokensOf (value.words style) ++ mark .semicolon :: rest := by
    simp [Stmt.words, Expr.words]
  rw [hwords]
  exact reads_statement_expr (value.operand_words _).1 (value.operand_words _).2
    (h.binary rfl _)

/-- A block is read back if its statements are. -/
theorem sentence_block {body : List Stmt} (h : ∀ s ∈ body, s.Sentence style) :
  (Stmt.block pos body).Sentence style
  := by
  intro rest
  refine ⟨mark .semicolon :: rest, ?_, .inr rfl⟩
  have hwords : tokensOf ((Stmt.block pos body).words style) ++ rest
      = tokensOf (braced (Stmt.wordsAll style body)) ++ mark .semicolon :: rest := by
    simp [Stmt.words]
  rw [hwords]
  exact reads_statement_block (reads_braced h)

/-- A `use` is read back. -/
theorem sentence_use (unit : String) :
  (Stmt.use pos unit).Sentence style
  := fun rest => ⟨rest, reads_statement_use unit, .inl rfl⟩

end Stmt

/-! ### Trees -/

mutual

/-- Every well-formed expression is read back as an operand. -/
theorem Expr.Formed.operand (hstyle : style.groupsKeys = true) (e : Expr) (h : e.Formed) :
  e.Operand style
  := by
  cases e with
  | name pos x => exact Expr.operand_name x
  | num pos n => exact Expr.operand_num n
  | str pos text => exact Expr.operand_str text
  | bool pos b => exact Expr.operand_bool b
  | null pos => exact Expr.operand_null
  | unary pos op operand => exact Expr.operand_unary (Expr.Formed.operand hstyle operand h.1) h.2
  | binary pos op left right =>
      exact Expr.operand_binary (Expr.Formed.operand hstyle left h.1)
        (Expr.Formed.operand hstyle right h.2)
  | cond pos test yes no =>
      cases no with
      | none =>
          exact Expr.operand_cond (Expr.Formed.operand hstyle test h.1)
            (Stmt.AllFormed.sentences hstyle yes h.2)
      | some no =>
          exact Expr.operand_cond_else (Expr.Formed.operand hstyle test h.1)
            (Stmt.AllFormed.sentences hstyle yes h.2.1) (Stmt.AllFormed.sentences hstyle no h.2.2)
  | loop pos test body =>
      exact Expr.operand_loop (Expr.Formed.operand hstyle test h.1)
        (Stmt.AllFormed.sentences hstyle body h.2)
  | func pos name params body =>
      exact Expr.operand_func h.2.2.1 (Stmt.AllFormed.sentences hstyle body h.2.2.2)
  | call pos callee args =>
      exact Expr.operand_call (Expr.Formed.operand hstyle callee h.1)
        (Expr.AllFormed.operands hstyle args h.2)
  | array pos elements => exact Expr.operand_array (Expr.AllFormed.operands hstyle elements h)
  | hash pos entries =>
      exact Expr.operand_hash hstyle (Expr.EntriesFormed.operands hstyle entries h)
  | index pos collection i =>
      exact Expr.operand_index (Expr.Formed.operand hstyle collection h.1)
        (Expr.Formed.operand hstyle i h.2)
  | assign pos x value => exact Expr.operand_assign (Expr.Formed.operand hstyle value h.2)
  | decorated pos decorator declaration =>
      exact Expr.operand_decorated h.1 (Expr.IsDecorator.decorates hstyle decorator h.1) h.2
        (Stmt.IsDeclaration.declared hstyle declaration h.2)

/-- Well-formed expressions are all read back. -/
theorem Expr.AllFormed.operands (hstyle : style.groupsKeys = true) (es : List Expr)
    (h : Expr.AllFormed es) :
  ∀ e ∈ es, e.Operand style
  := by
  cases es with
  | nil => exact List.forall_mem_nil _
  | cons e rest =>
      rw [List.forall_mem_cons]
      exact ⟨Expr.Formed.operand hstyle e h.1, Expr.AllFormed.operands hstyle rest h.2⟩

/-- Well-formed entries of a hash have keys and values that are read back. -/
theorem Expr.EntriesFormed.operands (hstyle : style.groupsKeys = true)
    (entries : List (Expr × Expr)) (h : Expr.EntriesFormed entries) :
  ∀ entry ∈ entries, entry.1.Operand style ∧ entry.2.Operand style
  := by
  rcases entries with _ | ⟨⟨key, value⟩, rest⟩
  · exact List.forall_mem_nil _
  · rw [List.forall_mem_cons]
    exact ⟨⟨Expr.Formed.operand hstyle key h.1, Expr.Formed.operand hstyle value h.2.1⟩,
      Expr.EntriesFormed.operands hstyle rest h.2.2⟩

/-- Every decorator is read back in front of a declaration. -/
theorem Expr.IsDecorator.decorates (hstyle : style.groupsKeys = true) (e : Expr)
    (h : e.IsDecorator) :
  e.Decorates style
  := by
  cases e with
  | name pos x => exact Expr.decorates_name x
  | call pos callee args =>
      cases callee with
      | name pos' x => exact Expr.decorates_call x (Expr.AllFormed.operands hstyle args h.2)
      | _ => exact h.elim
  | _ => exact h.elim

/-- Every well-formed statement is read back. -/
theorem Stmt.Formed.sentence (hstyle : style.groupsKeys = true) (s : Stmt) (h : s.Formed) :
  s.Sentence style
  := by
  rcases s with ⟨pos, x, value⟩ | ⟨pos, _ | value⟩ | ⟨pos, value⟩ | ⟨pos, body⟩ | ⟨pos, unit⟩
  · exact Stmt.sentence_define h.2.1 (Expr.Formed.operand hstyle value h.2.2)
  · exact Stmt.sentence_ret_none
  · exact Stmt.sentence_ret (Expr.Formed.operand hstyle value h)
  · exact Stmt.sentence_expr (Expr.Formed.operand hstyle value h)
  · exact Stmt.sentence_block (Stmt.AllFormed.sentences hstyle body h)
  · exact Stmt.sentence_use unit

/-- Well-formed statements are all read back. -/
theorem Stmt.AllFormed.sentences (hstyle : style.groupsKeys = true) (ss : List Stmt)
    (h : Stmt.AllFormed ss) :
  ∀ s ∈ ss, s.Sentence style
  := by
  cases ss with
  | nil => exact List.forall_mem_nil _
  | cons s rest =>
      rw [List.forall_mem_cons]
      exact ⟨Stmt.Formed.sentence hstyle s h.1, Stmt.AllFormed.sentences hstyle rest h.2⟩

/-- Every declaration is read back behind a decorator. -/
theorem Stmt.IsDeclaration.declared (hstyle : style.groupsKeys = true) (s : Stmt)
    (h : s.IsDeclaration) :
  s.Declared style
  := by
  cases s with
  | define pos x value => exact Stmt.declared_define h.2.1 (Expr.Formed.operand hstyle value h.2.2)
  | expr pos value =>
      cases value with
      | decorated pos' decorator declaration =>
          exact Stmt.declared_decorated h.1 (Expr.IsDecorator.decorates hstyle decorator h.1) h.2
            (Stmt.IsDeclaration.declared hstyle declaration h.2)
      | _ => exact h.elim
  | _ => exact h.elim

end

end Scriptlet
