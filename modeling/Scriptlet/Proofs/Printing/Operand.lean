import Scriptlet.Proofs.Printing.Reading

/-!
# Printed trees are read back

Whatever stands behind the printed words of a well-formed expression, they are read as that
expression, up to its positions and the digits of its numbers.
-/

namespace Scriptlet

open Parse
open PrintedWord (fixed grouped bracketed braced commas tokensOf)

variable (style : Style)

/-- The expression as it is read back. -/
abbrev Expr.reread (e : Expr) : Expr :=
  e.map (fun _ => .start) style.value

/-- The statement as it is read back. -/
abbrev Stmt.reread (s : Stmt) : Stmt :=
  s.map (fun _ => .start) style.value

/-- Whether an expression is read back as an operand. -/
def Expr.Operand (e : Expr) : Prop :=
  ∀ rest, Reads .primary (tokensOf (e.words style) ++ rest) (e.reread style) rest

/-- Whether a statement is read back.  Its semicolon may be left. -/
def Stmt.Sentence (s : Stmt) : Prop :=
  ∀ rest, ∃ m, Reads .statement (tokensOf (s.words style) ++ rest) (s.reread style) m
    ∧ (m = rest ∨ m = mark .semicolon :: rest)

/-- Whether a statement is read back behind a decorator. -/
def Stmt.Declared (s : Stmt) : Prop :=
  ∀ rest, Reads .declaration (tokensOf (s.declarationWords style) ++ rest) (s.reread style) rest

/-- Whether an expression is read back as the decorator of a declaration. -/
def Expr.Decorates (e : Expr) : Prop :=
  ∀ (s : Stmt), s.IsDeclaration → s.Declared style →
    ∀ rest, Reads .decorated
      (tokensOf (e.decoratorWords style ++ s.declarationWords style) ++ rest)
      (.decorated .start (e.reread style) (s.reread style)) rest

variable {style}

@[simp] theorem tokens_fixed (kind : TokenKind) :
  (fixed kind).tokens = [mark kind]
  := rfl

@[simp] theorem tokens_name (x : String) :
  (PrintedWord.name x).tokens = [⟨.identifier, x, .start⟩]
  := rfl

@[simp] theorem tokens_quoted (text : String) :
  (PrintedWord.quoted text).tokens = [⟨.string, text, .start⟩]
  := rfl

@[simp] theorem tokens_decorator (x : String) :
  (PrintedWord.decorator x).tokens = [⟨.decorator, "@", .start⟩, ⟨.identifier, x, .start⟩]
  := rfl

/-- Words in parentheses are read as their tokens between those of the parentheses. -/
@[simp] theorem tokensOf_grouped (words : List PrintedWord) :
  tokensOf (grouped words) = mark .leftParen :: (tokensOf words ++ [mark .rightParen])
  := by
  simp [grouped]

/-- Words in brackets are read as their tokens between those of the brackets. -/
@[simp] theorem tokensOf_bracketed (words : List PrintedWord) :
  tokensOf (bracketed words) = mark .leftBracket :: (tokensOf words ++ [mark .rightBracket])
  := by
  simp [bracketed]

/-- Words in braces are read as their tokens between those of the braces. -/
@[simp] theorem tokensOf_braced (words : List PrintedWord) :
  tokensOf (braced words) = mark .leftBrace :: (tokensOf words ++ [mark .rightBrace])
  := by
  simp [braced]

section

variable {e : Expr} {rest : List Token}

/-- An operand of more than one word stands in parentheses. -/
theorem Expr.words_of_compound (h : e.isAtom = false) :
  e.words style = grouped (e.inner style)
  := by
  simp [Expr.words, Expr.enclose, h]

/-- An operand of one word stands without parentheses. -/
theorem Expr.words_of_atom (h : e.isAtom = true) :
  e.words style = e.inner style
  := by
  simp [Expr.words, Expr.enclose, h]

/-- The words of an expression start with a word that starts an operand. -/
theorem Expr.operand_words (e : Expr) (rest : List Token) :
  operand (kindOf (tokensOf (e.words style) ++ rest)) = true
    ∧ hereOf .start (tokensOf (e.words style) ++ rest) = .start
  := by
  cases h : e.isAtom with
  | false =>
      rw [Expr.words_of_compound h, tokensOf_grouped]
      exact ⟨rfl, rfl⟩
  | true =>
      rw [Expr.words_of_atom h]
      cases e with
      | bool pos b =>
          cases b
          · exact ⟨rfl, rfl⟩
          · exact ⟨rfl, rfl⟩
      | name | num | str | null => exact ⟨rfl, rfl⟩
      | _ => cases h

/-- No operand begins with a unary operator. -/
theorem ofToken?_of_operand {kind : TokenKind} (h : operand kind = true) :
  UnaryOp.ofToken? kind = none
  := by
  cases kind
  all_goals first
    | rfl
    | cases h

/-- No expression goes on at a token that closes something. -/
theorem ofToken?_of_closing {kind : TokenKind} (h : closing kind = true) :
  BinaryOp.ofToken? kind = none ∧ kind ≠ .assign ∧ kind ≠ .leftParen ∧ kind ≠ .leftBracket
  := by
  cases kind
  all_goals first
    | exact absurd h (by decide)
    | exact ⟨rfl, by rintro ⟨⟩, by rintro ⟨⟩, by rintro ⟨⟩⟩

/-- No operand begins with a token that closes something, nor at the end. -/
theorem not_closing_of_operand {kind : TokenKind} (h : operand kind = true) :
  closing kind = false ∧ kind ≠ .eof
  := by
  cases kind
  all_goals first
    | exact absurd h (by decide)
    | exact ⟨rfl, by rintro ⟨⟩⟩

namespace Parse

variable {l : List Token} {a : Expr}

/-- What stands in front of a word that closes something is read alone. -/
theorem reads_binary_of_unary (h : Reads .unary l a rest) (hrest : closing (kindOf rest) = true)
    (level : Nat) :
  Reads (.binary level) l a rest
  := by
  obtain ⟨hop, hassign, -, -⟩ := ofToken?_of_closing hrest
  exact reads_binary h (reads_binaryRest_stop hop hassign)

/-- A primary expression without operators in front of it and without calls and indices behind it is
read at the level of unary operators. -/
theorem reads_unary_of_primary (h : Reads .primary l a rest)
    (hl : UnaryOp.ofToken? (kindOf l) = none)
    (hrest : kindOf rest ≠ .leftParen ∧ kindOf rest ≠ .leftBracket) :
  Reads .unary l a rest
  := reads_unary_suffixed hl (reads_suffixed h (reads_suffixes_stop hrest.1 hrest.2))

end Parse

/-- An operand is read back at the level of unary operators if no call or index follows. -/
theorem Expr.Operand.unary (h : e.Operand style)
    (hrest : kindOf rest ≠ .leftParen ∧ kindOf rest ≠ .leftBracket) :
  Reads .unary (tokensOf (e.words style) ++ rest) (e.reread style) rest
  := reads_unary_of_primary (h rest) (ofToken?_of_operand (e.operand_words rest).1) hrest

/-- An operand is read back at each level of binary operators in front of a token that closes
something. -/
theorem Expr.Operand.binary (h : e.Operand style) (hrest : closing (kindOf rest) = true)
    (level : Nat) :
  Reads (.binary level) (tokensOf (e.words style) ++ rest) (e.reread style) rest
  := reads_binary_of_unary (h.unary (ofToken?_of_closing hrest).2.2) hrest level

/-- An expression in parentheses is an operand. -/
theorem Expr.operand_of_inner (ha : e.isAtom = false)
    (h : ∀ rest, Reads (.binary assignLevel) (tokensOf (e.inner style) ++ mark .rightParen :: rest)
      (e.reread style) (mark .rightParen :: rest)) :
  e.Operand style
  := by
  intro rest
  rw [Expr.words_of_compound ha, tokensOf_grouped]
  have := reads_primary_group (h rest)
  simpa using this

/-- A compound expression is read back if between its parentheses it is read as a primary
expression. -/
theorem Expr.operand_of_primary (ha : e.isAtom = false)
    (hl : ∀ rest, UnaryOp.ofToken? (kindOf (tokensOf (e.inner style) ++ rest)) = none)
    (h : ∀ rest, Reads .primary (tokensOf (e.inner style) ++ mark .rightParen :: rest)
      (e.reread style) (mark .rightParen :: rest)) :
  e.Operand style
  := by
  apply Expr.operand_of_inner ha
  intro rest
  apply reads_binary_of_unary _ rfl
  exact reads_unary_of_primary (h rest) (hl _) ⟨by rintro ⟨⟩, by rintro ⟨⟩⟩

end

/-! ### Lists -/

section

variable {rest : List Token}

/-- Operands with commas between them are read back as a list, up to the mark that ends it. -/
theorem reads_commas {es : List Expr} (h : ∀ e ∈ es, e.Operand style) {stop : TokenKind}
    (hstop : stop = .rightParen ∨ stop = .rightBracket) :
  Reads (.expressions stop) (tokensOf (commas (Expr.innerAll style es)) ++ mark stop :: rest)
    (Expr.mapAll (fun _ => .start) style.value es) (mark stop :: rest)
  := by
  have hclosing : closing stop = true := by
    rcases hstop with rfl | rfl
    · rfl
    · rfl
  have hcomma : stop ≠ .comma := by
    rcases hstop with rfl | rfl
    · rintro ⟨⟩
    · rintro ⟨⟩
  have hne {e : Expr} {l : List Token} : kindOf (tokensOf (e.words style) ++ l) ≠ stop := by
    intro heq
    have hoperand : operand (kindOf (tokensOf (e.words style) ++ l)) = true :=
      (e.operand_words l).1
    rw [heq] at hoperand
    rw [(not_closing_of_operand hoperand).1] at hclosing
    cases hclosing
  induction es with
  | nil => exact reads_expressions_nil rfl
  | cons e es ih =>
      rw [List.forall_mem_cons] at h
      cases es with
      | nil =>
          have hlast : Reads (.binary assignLevel) (tokensOf (e.words style) ++ mark stop :: rest)
            (e.reread style) (mark stop :: rest) := h.1.binary (by exact hclosing) _
          exact reads_expressions_last hne hcomma hlast
      | cons e' es =>
          have hfirst (l : List Token) :
            Reads (.binary assignLevel) (tokensOf (e.words style) ++ mark .comma :: l)
              (e.reread style) (mark .comma :: l)
            := h.1.binary rfl _
          have := reads_expressions_cons hne (hfirst _) (ih h.2)
          show Reads (.expressions stop) _ (e.reread style :: Expr.mapAll _ _ (e' :: es)) _
          simpa [Expr.innerAll, commas, Expr.words] using this

/-- The key of an entry is read as an expression, if names stand in parentheses there. -/
theorem Expr.Operand.key (hstyle : style.groupsKeys = true) {e : Expr} (h : e.Operand style)
    (hrest : kindOf rest = .colon) :
  Reads .hashKey (tokensOf (e.encloseKey style (e.inner style)) ++ rest) (e.reread style) rest
    ∧ kindOf (tokensOf (e.encloseKey style (e.inner style)) ++ rest) ≠ .rightBrace
  := by
  have hclosing {l : List Token} (hl : kindOf l = .colon) : closing (kindOf l) = true := by
    rw [hl]
    rfl
  cases hname : e.isName with
  | true =>
      have hwords : e.words style = e.inner style := by
        apply Expr.words_of_atom
        cases e with
        | name => rfl
        | _ => cases hname
      -- A bare name would be read as a text, so it is printed in parentheses.
      have hkey : e.encloseKey style (e.inner style) = grouped (e.words style) := by
        simp [Expr.encloseKey, hname, hstyle, hwords]
      rw [hkey, tokensOf_grouped]
      refine ⟨?_, by rintro ⟨⟩⟩
      have hinner : Reads (.binary assignLevel)
        (tokensOf (e.words style) ++ mark .rightParen :: rest) (e.reread style)
        (mark .rightParen :: rest) := h.binary rfl _
      have := reads_binary_of_unary (reads_unary_of_primary (reads_primary_group hinner) rfl
        ⟨by simp [hrest], by simp [hrest]⟩) (hclosing hrest) assignLevel
      have hparen : ¬ (kindOf (mark .leftParen :: (tokensOf (e.words style)
          ++ mark .rightParen :: rest)) = .identifier
        ∧ kindOf (mark .leftParen :: (tokensOf (e.words style)
          ++ mark .rightParen :: rest)).tail = .colon) := by
        rintro ⟨⟨⟩, -⟩
      simpa using reads_hashKey hparen this
  | false =>
      have hkey : e.encloseKey style (e.inner style) = e.words style := by
        simp [Expr.encloseKey, hname, Expr.words]
      rw [hkey]
      constructor
      · apply reads_hashKey _ (h.binary (hclosing hrest) _)
        rintro ⟨hk, -⟩
        cases ha : e.isAtom with
        | false =>
            rw [Expr.words_of_compound ha, tokensOf_grouped] at hk
            cases hk
        | true =>
            rw [Expr.words_of_atom ha] at hk
            cases e with
            | name => cases hname
            | bool pos b =>
                cases b
                · cases hk
                · cases hk
            | num | str | null => cases hk
            | _ => cases ha
      · intro hk
        have hoperand : operand (kindOf (tokensOf (e.words style) ++ rest)) = true :=
          (e.operand_words rest).1
        rw [hk] at hoperand
        cases hoperand

/-- Entries with commas between them are read back as those of a hash, if names that are keys stand
in parentheses. -/
theorem reads_entries (hstyle : style.groupsKeys = true) {entries : List (Expr × Expr)}
    (h : ∀ entry ∈ entries, entry.1.Operand style ∧ entry.2.Operand style) :
  Reads .hashEntries
    (tokensOf (commas (Expr.innerEntries style entries)) ++ mark .rightBrace :: rest)
    (Expr.mapEntries (fun _ => .start) style.value entries) (mark .rightBrace :: rest)
  := by
  induction entries with
  | nil => exact reads_hashEntries_nil rfl
  | cons entry entries ih =>
      obtain ⟨key, value⟩ := entry
      rw [List.forall_mem_cons] at h
      obtain ⟨⟨hkey, hvalue⟩, h⟩ := h
      have hkey (l : List Token) := hkey.key hstyle (kindOf_cons (mark .colon) l)
      cases entries with
      | nil =>
          have hlast : Reads (.binary assignLevel)
            (tokensOf (value.words style) ++ mark .rightBrace :: rest) (value.reread style)
            (mark .rightBrace :: rest) := hvalue.binary rfl _
          have := reads_hashEntries_last (hkey _).2 (by rintro ⟨⟩) (hkey _).1 hlast
          show Reads .hashEntries _ [(key.reread style, value.reread style)] _
          simpa [Expr.innerEntries, commas, Expr.words] using this
      | cons entry entries =>
          have hfirst (l : List Token) :
            Reads (.binary assignLevel) (tokensOf (value.words style) ++ mark .comma :: l)
              (value.reread style) (mark .comma :: l)
            := hvalue.binary rfl _
          have := reads_hashEntries_cons (hkey _).2 (hkey _).1 (hfirst _) (ih h)
          show Reads .hashEntries _
            ((key.reread style, value.reread style) :: Expr.mapEntries _ _ (entry :: entries)) _
          simpa [Expr.innerEntries, commas, Expr.words] using this

/-- The words of a statement start with one that starts a statement. -/
theorem Stmt.kindOf_words (s : Stmt) (rest : List Token) :
  kindOf (tokensOf (s.words style) ++ rest) ≠ .rightBrace
    ∧ kindOf (tokensOf (s.words style) ++ rest) ≠ .eof
    ∧ kindOf (tokensOf (s.words style) ++ rest) ≠ .semicolon
  := by
  rcases s with ⟨pos, x, value⟩ | ⟨pos, _ | value⟩ | ⟨pos, value⟩ | ⟨pos, body⟩ | ⟨pos, unit⟩
  case expr =>
    have hoperand :
      operand (kindOf (tokensOf (value.words style) ++ mark .semicolon :: rest)) = true
      := (value.operand_words _).1
    have hwords : tokensOf ((Stmt.expr pos value).words style) ++ rest
        = tokensOf (value.words style) ++ mark .semicolon :: rest := by
      simp [Stmt.words, Expr.words]
    rw [hwords]
    generalize kindOf (tokensOf (value.words style) ++ mark .semicolon :: rest) = k at hoperand
    refine ⟨?_, ?_, ?_⟩
    all_goals
      rintro rfl
      cases hoperand
  all_goals exact ⟨by rintro ⟨⟩, by rintro ⟨⟩, by rintro ⟨⟩⟩

/-- The statements of a block are read back up to the brace that ends it. -/
theorem reads_body {ss : List Stmt} (h : ∀ s ∈ ss, s.Sentence style) :
  Reads (.blockRest .start) (tokensOf (Stmt.wordsAll style ss) ++ mark .rightBrace :: rest)
    (Stmt.mapAll (fun _ => .start) style.value ss) rest
  := by
  induction ss with
  | nil => exact reads_blockRest_nil
  | cons s ss ih =>
      rw [List.forall_mem_cons] at h
      have ih := ih h.2
      obtain ⟨m, hs, hm⟩ := h.1 (tokensOf (Stmt.wordsAll style ss) ++ mark .rightBrace :: rest)
      have hrest : Reads (.blockRest .start) m (Stmt.mapAll (fun _ => .start) style.value ss) rest
        := by
        rcases hm with rfl | rfl
        · exact ih
        · exact reads_blockRest_semicolon ih
      have := reads_blockRest_cons (s.kindOf_words _) hs hrest
      show Reads (.blockRest .start) _ (s.reread style :: Stmt.mapAll _ _ ss) _
      simpa [Stmt.wordsAll] using this

/-- Statements in braces are read back as a block. -/
theorem reads_braced {ss : List Stmt} (h : ∀ s ∈ ss, s.Sentence style) :
  Reads .block (tokensOf (braced (Stmt.wordsAll style ss)) ++ rest)
    (Stmt.mapAll (fun _ => .start) style.value ss) rest
  := by
  have hbody : Reads (.blockRest .start)
    (tokensOf (Stmt.wordsAll style ss) ++ mark .rightBrace :: rest)
    (Stmt.mapAll (fun _ => .start) style.value ss) rest := reads_body h
  simpa using reads_block hbody

end

end Scriptlet
