import Scriptlet.Number.Numeral
import Scriptlet.Proofs.Printing.Word

/-!
# Printing

The text of a program, in which every statement ends in a semicolon and every expression of more
than one word stands in parentheses.  The declaration that a decorator is put on is written bare,
with the semicolon that it ends in; a decorator among decorators has none of its own.
-/

namespace Scriptlet

/-- How numbers and keys are printed. -/
structure Style where
  /-- The digits of a number literal. -/
  numeral : Nat → List Char
  numeral_ne_nil (n : Nat) : numeral n ≠ []
  isDigit_of_mem_numeral (n : Nat) : ∀ d ∈ numeral n, d.isDigit = true
  /-- They write a number with the same double. -/
  nearest_numeral (n : Nat) : Numeral.nearest (Numeral.value (numeral n)) = Numeral.nearest n
  /-- Whether a name that is the key of an entry stands in parentheses. -/
  groupsKeys : Bool

/-- The number that the digits of a number literal write. -/
def Style.value (style : Style) (n : Nat) : Nat :=
  Numeral.value (style.numeral n)

/-- Numbers are printed in full. -/
def Style.decimal (groupsKeys : Bool) : Style where
  numeral := Nat.toDigits 10
  numeral_ne_nil _ := Nat.toDigits_ne_nil
  isDigit_of_mem_numeral _ _ hd := Nat.isDigit_of_mem_toDigits (by decide) (by decide) hd
  nearest_numeral n := by rw [Numeral.value_eq, Nat.ofDigitChars_ten_toDigits]
  groupsKeys := groupsKeys

/-- The kind of the token of an operator. -/
def UnaryOp.kind : UnaryOp → TokenKind
  | negate => .minus
  | not => .bang
  | typeOf => .typeofWord
  | throw => .throwWord
  | delete => .deleteWord

/-- The kind of the token of an operator. -/
def BinaryOp.kind : BinaryOp → TokenKind
  | add => .plus
  | sub => .minus
  | mul => .asterisk
  | div => .slash
  | mod => .percent
  | equal => .equal
  | notEqual => .notEqual
  | less => .less
  | lessEqual => .lessEqual
  | greater => .greater
  | greaterEqual => .greaterEqual
  | and => .and
  | or => .or
  | isIn => .inWord

namespace PrintedWord

/-- Words in parentheses. -/
def grouped (words : List PrintedWord) : List PrintedWord :=
  fixed .leftParen :: (words ++ [fixed .rightParen])

/-- Words in brackets. -/
def bracketed (words : List PrintedWord) : List PrintedWord :=
  fixed .leftBracket :: (words ++ [fixed .rightBracket])

/-- Words in braces. -/
def braced (words : List PrintedWord) : List PrintedWord :=
  fixed .leftBrace :: (words ++ [fixed .rightBrace])

/-- Words with commas between them. -/
def commas : List (List PrintedWord) → List PrintedWord
  | [] => []
  | [words] => words
  | words :: rest => words ++ fixed .comma :: commas rest

end PrintedWord

open PrintedWord (fixed grouped bracketed braced commas)

/-- Whether an expression is a single word. -/
def Expr.isAtom : Expr → Bool
  | .name _ _ | .num _ _ | .str _ _ | .bool _ _ | .null _ => true
  | _ => false

/-- The words of an expression as an operand: in parentheses unless it is a single word. -/
def Expr.enclose (e : Expr) (words : List PrintedWord) : List PrintedWord :=
  if e.isAtom then words else grouped words

/-- The words of an expression as the key of an entry. -/
def Expr.encloseKey (style : Style) (e : Expr) (words : List PrintedWord) : List PrintedWord :=
  if e.isName && style.groupsKeys then grouped words else e.enclose words

mutual

/-- The words of an expression without parentheses around it. -/
def Expr.inner (style : Style) : Expr → List PrintedWord
  | .name _ x => [.name x]
  | .num _ n => [.digits (style.numeral n)]
  | .str _ text => [.quoted text]
  | .bool _ b => [fixed (if b then .trueWord else .falseWord)]
  | .null _ => [fixed .nullWord]
  | .unary _ op operand => fixed op.kind :: operand.enclose (operand.inner style)
  | .binary _ op left right =>
    left.enclose (left.inner style) ++ fixed op.kind :: right.enclose (right.inner style)
  | .cond _ test yes none =>
    fixed .ifWord :: (grouped (test.enclose (test.inner style))
      ++ braced (Stmt.wordsAll style yes))
  | .cond _ test yes (some no) =>
    fixed .ifWord :: (grouped (test.enclose (test.inner style))
      ++ braced (Stmt.wordsAll style yes)
      ++ fixed .elseWord :: braced (Stmt.wordsAll style no))
  | .loop _ test body =>
    fixed .whileWord :: (grouped (test.enclose (test.inner style))
      ++ braced (Stmt.wordsAll style body))
  | .func _ name params body =>
    fixed .funcWord :: (name.toList.map .name
      ++ grouped (commas (params.map fun x => [.name x])) ++ braced (Stmt.wordsAll style body))
  | .call _ callee args =>
    callee.enclose (callee.inner style) ++ grouped (commas (Expr.innerAll style args))
  | .array _ elements => bracketed (commas (Expr.innerAll style elements))
  | .hash _ entries => braced (commas (Expr.innerEntries style entries))
  | .index _ collection i =>
    collection.enclose (collection.inner style) ++ bracketed (i.enclose (i.inner style))
  | .assign _ x value => .name x :: fixed .assign :: value.enclose (value.inner style)
  | .decorated _ decorator declaration =>
    decorator.decoratorWords style ++ declaration.declarationWords style

/-- The words of each of the expressions as an operand. -/
def Expr.innerAll (style : Style) : List Expr → List (List PrintedWord)
  | [] => []
  | e :: rest => e.enclose (e.inner style) :: Expr.innerAll style rest

/-- The words of each of the entries. -/
def Expr.innerEntries (style : Style) : List (Expr × Expr) → List (List PrintedWord)
  | [] => []
  | (key, value) :: rest =>
    (key.encloseKey style (key.inner style)
      ++ fixed .colon :: value.enclose (value.inner style)) :: Expr.innerEntries style rest

/-- The words of a decorator. -/
def Expr.decoratorWords (style : Style) : Expr → List PrintedWord
  | .name _ x => [.decorator x]
  | .call _ (.name _ x) args => .decorator x :: grouped (commas (Expr.innerAll style args))
  | _ => []

/-- The words of a statement, with the semicolon that it ends in. -/
def Stmt.words (style : Style) : Stmt → List PrintedWord
  | .define _ x value =>
    fixed .letWord :: .name x :: fixed .assign
      :: (value.enclose (value.inner style) ++ [fixed .semicolon])
  | .ret _ none => [fixed .returnWord, fixed .semicolon]
  | .ret _ (some value) =>
    fixed .returnWord :: (value.enclose (value.inner style) ++ [fixed .semicolon])
  | .expr _ value => value.enclose (value.inner style) ++ [fixed .semicolon]
  | .block _ body => braced (Stmt.wordsAll style body) ++ [fixed .semicolon]
  | .use _ unit => [fixed .useWord, .quoted unit, fixed .semicolon]

/-- The words of all the statements. -/
def Stmt.wordsAll (style : Style) : List Stmt → List PrintedWord
  | [] => []
  | s :: rest => s.words style ++ Stmt.wordsAll style rest

/-- The words of the declaration that a decorator is put on. -/
def Stmt.declarationWords (style : Style) : Stmt → List PrintedWord
  | .define _ x value =>
    fixed .letWord :: .name x :: fixed .assign
      :: (value.enclose (value.inner style) ++ [fixed .semicolon])
  | .expr _ value => value.inner style
  | _ => []

end

/-- The words of an expression as an operand. -/
def Expr.words (style : Style) (e : Expr) : List PrintedWord :=
  e.enclose (e.inner style)

/-- The text of a program. -/
def Program.print (style : Style) (program : Program) : String :=
  PrintedWord.text (Stmt.wordsAll style program.statements)

/-! ### The words of a well-formed tree can be printed -/

namespace PrintedWord

/-- Whether all words can be printed. -/
def AllValid (words : List PrintedWord) : Prop :=
  ∀ w ∈ words, w.Valid

section

variable {words words' : List PrintedWord}

@[simp] theorem allValid_nil :
  AllValid []
  := List.forall_mem_nil _

@[simp] theorem allValid_cons {w : PrintedWord} :
  AllValid (w :: words) ↔ w.Valid ∧ AllValid words
  := List.forall_mem_cons

/-- Words one after the other can be printed if both parts can. -/
@[simp] theorem allValid_append :
  AllValid (words ++ words') ↔ AllValid words ∧ AllValid words'
  := List.forall_mem_append

/-- A word of a fixed kind can be printed if it is written with some characters. -/
@[simp] theorem valid_fixed {kind : TokenKind} :
  (fixed kind).Valid ↔ kind.written ≠ ""
  := Iff.rfl

/-- Parentheses can be put around words that can be printed. -/
@[simp] theorem allValid_grouped :
  AllValid (grouped words) ↔ AllValid words
  := by
  simp [grouped, TokenKind.written]

/-- Brackets can be put around words that can be printed. -/
@[simp] theorem allValid_bracketed :
  AllValid (bracketed words) ↔ AllValid words
  := by
  simp [bracketed, TokenKind.written]

/-- Braces can be put around words that can be printed. -/
@[simp] theorem allValid_braced :
  AllValid (braced words) ↔ AllValid words
  := by
  simp [braced, TokenKind.written]

/-- Commas can be put between words that can be printed. -/
theorem allValid_commas {lists : List (List PrintedWord)}
    (h : ∀ words ∈ lists, AllValid words) :
  AllValid (commas lists)
  := by
  induction lists with
  | nil => exact allValid_nil
  | cons words rest ih =>
      rw [List.forall_mem_cons] at h
      cases rest with
      | nil => exact h.1
      | cons words' rest =>
          have := ih h.2
          simp [commas, h.1, this, TokenKind.written]

/-- The words of an operand can be printed if those of the expression can. -/
theorem allValid_enclose (e : Expr) (h : AllValid words) :
  AllValid (e.enclose words)
  := by
  unfold Expr.enclose
  split
  · exact h
  · exact allValid_grouped.mpr h

/-- The words of a key can be printed if those of the expression can. -/
theorem allValid_encloseKey (style : Style) (e : Expr) (h : AllValid words) :
  AllValid (e.encloseKey style words)
  := by
  unfold Expr.encloseKey
  split
  · exact allValid_grouped.mpr h
  · exact allValid_enclose e h

end

/-- Every unary operator is written with some characters. -/
theorem written_unary (op : UnaryOp) :
  op.kind.written ≠ ""
  := by
  cases op
  all_goals decide

/-- Every binary operator is written with some characters. -/
theorem written_binary (op : BinaryOp) :
  op.kind.written ≠ ""
  := by
  cases op
  all_goals decide

end PrintedWord

open PrintedWord

section

variable (style : Style)

mutual

/-- The words of a well-formed expression can be printed. -/
theorem Expr.inner_valid (e : Expr) (h : e.Formed) :
  AllValid (e.inner style)
  := by
  cases e with
  | name pos x =>
      have hx : (PrintedWord.name x).Valid := h
      simp [Expr.inner, hx]
  | num pos n =>
      simpa [Expr.inner, PrintedWord.Valid] using
        And.intro (style.numeral_ne_nil n) (style.isDigit_of_mem_numeral n)
  | str pos text => simp [Expr.inner, PrintedWord.Valid]
  | bool pos b =>
      cases b
      · simp [Expr.inner, TokenKind.written]
      · simp [Expr.inner, TokenKind.written]
  | null pos => simp [Expr.inner, TokenKind.written]
  | unary pos op operand =>
      have := allValid_enclose operand (Expr.inner_valid operand h.1)
      simpa [Expr.inner, written_unary] using this
  | binary pos op left right =>
      have hleft := allValid_enclose left (Expr.inner_valid left h.1)
      have hright := allValid_enclose right (Expr.inner_valid right h.2)
      simpa [Expr.inner, written_binary] using And.intro hleft hright
  | cond pos test yes no =>
      cases no with
      | none =>
          have htest := allValid_enclose test (Expr.inner_valid test h.1)
          have hyes := Stmt.wordsAll_valid yes h.2
          simp [Expr.inner, TokenKind.written, htest, hyes]
      | some no =>
          have htest := allValid_enclose test (Expr.inner_valid test h.1)
          have hyes := Stmt.wordsAll_valid yes h.2.1
          have hno := Stmt.wordsAll_valid no h.2.2
          simp [Expr.inner, TokenKind.written, htest, hyes, hno]
  | loop pos test body =>
      have htest := allValid_enclose test (Expr.inner_valid test h.1)
      have hbody := Stmt.wordsAll_valid body h.2
      simp [Expr.inner, TokenKind.written, htest, hbody]
  | func pos name params body =>
      obtain ⟨hname, hparams, -, hbody⟩ := h
      have hbody := Stmt.wordsAll_valid body hbody
      have hcommas : AllValid (commas (params.map fun x => [.name x])) := by
        apply allValid_commas
        simp only [List.forall_mem_map]
        intro x hx
        simpa [PrintedWord.Valid] using hparams x hx
      cases name with
      | none => simp [Expr.inner, TokenKind.written, hcommas, hbody]
      | some x =>
          have hx : (PrintedWord.name x).Valid := hname x rfl
          simp [Expr.inner, TokenKind.written, hcommas, hbody, hx]
  | call pos callee args =>
      have hcallee := allValid_enclose callee (Expr.inner_valid callee h.1)
      have hargs := allValid_commas (Expr.innerAll_valid args h.2)
      simp [Expr.inner, hcallee, hargs]
  | array pos elements =>
      have := allValid_commas (Expr.innerAll_valid elements h)
      simp [Expr.inner, this]
  | hash pos entries =>
      have := allValid_commas (Expr.innerEntries_valid entries h)
      simp [Expr.inner, this]
  | index pos collection i =>
      have hcollection := allValid_enclose collection (Expr.inner_valid collection h.1)
      have hi := allValid_enclose i (Expr.inner_valid i h.2)
      simp [Expr.inner, hcollection, hi]
  | assign pos x value =>
      have hx : (PrintedWord.name x).Valid := h.1
      have hvalue := allValid_enclose value (Expr.inner_valid value h.2)
      simp [Expr.inner, TokenKind.written, hx, hvalue]
  | decorated pos decorator declaration =>
      have hdecorator := Expr.decoratorWords_valid decorator h.1
      have hdeclaration := Stmt.declarationWords_valid declaration h.2
      simp [Expr.inner, hdecorator, hdeclaration]

/-- The words of well-formed expressions can be printed. -/
theorem Expr.innerAll_valid (es : List Expr) (h : Expr.AllFormed es) :
  ∀ words ∈ Expr.innerAll style es, AllValid words
  := by
  cases es with
  | nil => exact List.forall_mem_nil _
  | cons e rest =>
      have he := allValid_enclose e (Expr.inner_valid e h.1)
      have hrest := Expr.innerAll_valid rest h.2
      simpa [Expr.innerAll] using And.intro he hrest

/-- The words of well-formed entries can be printed. -/
theorem Expr.innerEntries_valid (entries : List (Expr × Expr)) (h : Expr.EntriesFormed entries) :
  ∀ words ∈ Expr.innerEntries style entries, AllValid words
  := by
  rcases entries with _ | ⟨⟨key, value⟩, rest⟩
  · exact List.forall_mem_nil _
  · have hkey := allValid_encloseKey style key (Expr.inner_valid key h.1)
    have hvalue := allValid_enclose value (Expr.inner_valid value h.2.1)
    have hrest := Expr.innerEntries_valid rest h.2.2
    simpa [Expr.innerEntries, TokenKind.written, hkey, hvalue] using hrest

/-- The words of a decorator can be printed. -/
theorem Expr.decoratorWords_valid (e : Expr) (h : e.IsDecorator) :
  AllValid (e.decoratorWords style)
  := by
  cases e with
  | name pos x =>
      have hx : (PrintedWord.decorator x).Valid := h
      simp [Expr.decoratorWords, hx]
  | call pos callee args =>
      cases callee with
      | name pos' x =>
          have hx : (PrintedWord.decorator x).Valid := h.1
          have hargs := allValid_commas (Expr.innerAll_valid args h.2)
          simp [Expr.decoratorWords, hx, hargs]
      | _ => exact h.elim
  | _ => exact h.elim

/-- The words of a well-formed statement can be printed. -/
theorem Stmt.words_valid (s : Stmt) (h : s.Formed) :
  AllValid (s.words style)
  := by
  rcases s with ⟨pos, x, value⟩ | ⟨pos, _ | value⟩ | ⟨pos, value⟩ | ⟨pos, body⟩ | ⟨pos, unit⟩
  · have hx : (PrintedWord.name x).Valid := h.1
    have hvalue := allValid_enclose value (Expr.inner_valid value h.2.2)
    simp [Stmt.words, TokenKind.written, hx, hvalue]
  · simp [Stmt.words, TokenKind.written]
  · have hvalue := allValid_enclose value (Expr.inner_valid value h)
    simp [Stmt.words, TokenKind.written, hvalue]
  · have hvalue := allValid_enclose value (Expr.inner_valid value h)
    simp [Stmt.words, TokenKind.written, hvalue]
  · have hbody := Stmt.wordsAll_valid body h
    simp [Stmt.words, TokenKind.written, hbody]
  · simp [Stmt.words, TokenKind.written, PrintedWord.Valid]

/-- The words of well-formed statements can be printed. -/
theorem Stmt.wordsAll_valid (ss : List Stmt) (h : Stmt.AllFormed ss) :
  AllValid (Stmt.wordsAll style ss)
  := by
  cases ss with
  | nil => exact allValid_nil
  | cons s rest =>
      have hs := Stmt.words_valid s h.1
      have hrest := Stmt.wordsAll_valid rest h.2
      simp [Stmt.wordsAll, hs, hrest]

/-- The words of a declaration can be printed. -/
theorem Stmt.declarationWords_valid (s : Stmt) (h : s.IsDeclaration) :
  AllValid (s.declarationWords style)
  := by
  cases s with
  | define pos x value =>
      have hx : (PrintedWord.name x).Valid := h.1
      have hvalue := allValid_enclose value (Expr.inner_valid value h.2.2)
      simp [Stmt.declarationWords, TokenKind.written, hx, hvalue]
  | expr pos value => exact Expr.inner_valid value (Stmt.IsDeclaration.formed h)
  | _ => exact h.elim

end

end

end Scriptlet
