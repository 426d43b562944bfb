import Mathlib.Data.List.TakeWhile
import Scriptlet.Proofs.Lexing.Join
import Scriptlet.Proofs.Lexing.Spelling

/-!
# Printed words

The words of a printed program and the tokens that they are read as.  Behind each word there is a
blank, so that a word is read as the same tokens whatever stands behind it.
-/

namespace Scriptlet

/-- How a token is written whose kind says all of it. -/
def TokenKind.written : TokenKind → String
  | letWord => "let"
  | funcWord => "func"
  | trueWord => "true"
  | falseWord => "false"
  | ifWord => "if"
  | elseWord => "else"
  | returnWord => "return"
  | whileWord => "while"
  | inWord => "in"
  | typeofWord => "typeof"
  | nullWord => "null"
  | throwWord => "throw"
  | deleteWord => "delete"
  | useWord => "use"
  | assign => "="
  | plus => "+"
  | minus => "-"
  | asterisk => "*"
  | slash => "/"
  | percent => "%"
  | bang => "!"
  | equal => "=="
  | notEqual => "!="
  | less => "<"
  | lessEqual => "<="
  | greater => ">"
  | greaterEqual => ">="
  | and => "&&"
  | or => "||"
  | comma => ","
  | semicolon => ";"
  | colon => ":"
  | leftParen => "("
  | rightParen => ")"
  | leftBrace => "\x7b"
  | rightBrace => "\x7d"
  | leftBracket => "["
  | rightBracket => "]"
  | eof | illegal | identifier | number | string | decorator => ""

/-- A word of a printed program. -/
inductive PrintedWord where
  /-- A reserved word, an operator or a mark. -/
  | fixed (kind : TokenKind)
  | name (x : String)
  | digits (digits : List Char)
  /-- A string between double quotes. -/
  | quoted (text : String)
  /-- The name of a decorator behind its `@`. -/
  | decorator (x : String)

namespace PrintedWord

/-- The characters of a text, with a backslash in front of double quotes and backslashes. -/
def escape : List Char → List Char
  | [] => []
  | c :: cs => if c = '"' ∨ c = '\\' then '\\' :: c :: escape cs else c :: escape cs

/-- The characters of a word. -/
def chars : PrintedWord → List Char
  | fixed kind => kind.written.toList
  | name x => x.toList
  | digits ds => ds
  | quoted text => '"' :: (escape text.toList ++ ['"'])
  | decorator x => '@' :: x.toList

/-- The tokens that a word is read as, but for their positions. -/
def tokens : PrintedWord → List Token
  | fixed kind => [⟨kind, kind.written, .start⟩]
  | name x => [⟨.identifier, x, .start⟩]
  | digits ds => [⟨.number, String.ofList ds, .start⟩]
  | quoted text => [⟨.string, text, .start⟩]
  | decorator x => [⟨.decorator, "@", .start⟩, ⟨.identifier, x, .start⟩]

/-- Whether a word can be printed. -/
def Valid : PrintedWord → Prop
  | fixed kind => kind.written ≠ ""
  | name x => IsName x
  | digits ds => ds ≠ [] ∧ ∀ d ∈ ds, d.isDigit = true
  | quoted _ => True
  | decorator x => IsWord x

/-- The text of words, with a blank behind each of them. -/
def text (words : List PrintedWord) : String :=
  String.ofList (words.flatMap fun w => w.chars ++ [' '])

end PrintedWord

namespace Source

open PrintedWord (escape)

/-- A blank ends every lexeme. -/
theorem stop_blank :
  Stop ' '
  := by
  constructor
  · decide
  · decide
  · intro c
    unfold double?
    split <;> simp_all

/-- A blank is passed over. -/
theorem scan_blank (p : Position) (cs : List Char) :
  scan p 0 (' ' :: cs) = scan (p.next ' ') 0 cs
  := by
  have hblank : isBlank ' ' = true := by decide
  simp [scan, hblank]

/-- A word or operator is read up to the end of the text or the blank behind it. -/
theorem scan_lexeme {c : Char} {cs rest : List Char} {kind : TokenKind} {word : String}
    (hblank : isBlank c = false) (hat : c = '@' → cs = []) (hslash : c = '/' → cs = [])
    (hclosed : Unclosed (c :: cs) → rest = []) (hlexeme : lexeme c cs = ⟨kind, word, cs.length⟩)
    (hrest : ∀ d ∈ rest.head?, d = ' ') (p : Position) :
  scan p 0 (c :: cs ++ rest) = ⟨kind, word, p⟩ :: scan (p.after (c :: cs)) 0 rest
  := by
  have hhead (hcs : cs = []) (d : Char) (hd : d ∈ (cs ++ rest).head?) : d = ' ' := by
    subst hcs
    exact hrest d hd
  have hcomment : ¬ (c = '/' ∧ (cs ++ rest).head? = some '/') := by
    rintro ⟨hc, hnext⟩
    exact absurd (hhead (hslash hc) _ hnext) (by decide)
  have hname : ¬ (c = '@' ∧ (cs ++ rest).head?.any isNameStart = true) := by
    rintro ⟨hc, hnext⟩
    obtain ⟨d, hd, hstart⟩ : ∃ d ∈ (cs ++ rest).head?, isNameStart d = true := by
      simpa [Option.any_eq_true] using hnext
    rw [hhead (hat hc) d hd] at hstart
    exact absurd hstart (by decide)
  apply scan_of_lexeme hblank hcomment hname
  rcases rest with _ | ⟨d, ds⟩
  · rw [List.append_nil, hlexeme]
  · obtain rfl := hrest d rfl
    rw [lexeme_append stop_blank c cs ds (fun h => List.cons_ne_nil _ _ (hclosed h)), hlexeme]

/-- What starts as names go on is no decorator, comment or string. -/
theorem scan_lexeme_of_isNamePart {c : Char} {cs rest : List Char} {kind : TokenKind}
    {word : String} (hblank : isBlank c = false) (hc : isNamePart c = true)
    (hlexeme : lexeme c cs = ⟨kind, word, cs.length⟩) (hrest : ∀ d ∈ rest.head?, d = ' ')
    (p : Position) :
  scan p 0 (c :: cs ++ rest) = ⟨kind, word, p⟩ :: scan (p.after (c :: cs)) 0 rest
  := by
  have hne (d : Char) (hd : isNamePart d = false) : c ≠ d := by
    rintro rfl
    rw [hc] at hd
    cases hd
  have hat (h : c = '@') : cs = [] := absurd h (hne '@' (by decide))
  have hslash (h : c = '/') : cs = [] := absurd h (hne '/' (by decide))
  have hclosed : Unclosed (c :: cs) → rest = [] := by
    rintro ⟨h | h, -⟩
    · exact absurd h (hne _ (by decide))
    · exact absurd h (hne _ (by decide))
  exact scan_lexeme hblank hat hslash hclosed hlexeme hrest p

/-- The visible characters of ASCII are not blank. -/
theorem isBlank_of_range {c : Char} (h : 33 ≤ c.toNat ∧ c.toNat ≤ 126) :
  isBlank c = false
  := by
  simp [isBlank, blankRanges]
  omega

/-- An `@` in front of a word is read as a token of its own, and the word behind it as a name, even
if it is reserved elsewhere. -/
theorem scan_decorator {cs : List Char} (h : cs.head?.any isNameStart = true) (p : Position) :
  scan p 0 ('@' :: cs)
    = ⟨.decorator, "@", p⟩ :: ⟨.identifier, String.ofList (cs.takeWhile isNamePart), p.next '@'⟩
      :: scan (p.next '@') (cs.takeWhile isNamePart).length cs
  := by
  have hblank : isBlank '@' = false := by decide
  simp [scan, hblank, h]

theorem isNameStart_eq (c : Char) :
  isNameStart c = (decide (c.val ≥ 'A'.val ∧ c.val ≤ 'Z'.val)
    || decide (c.val ≥ 'a'.val) && decide (c.val ≤ 'z'.val) || c == '_')
  := rfl

/-- What begins a name is no blank. -/
theorem isBlank_of_isNameStart {c : Char} (h : isNameStart c = true) :
  isBlank c = false
  := by
  apply isBlank_of_range
  simp only [isNameStart_eq, Bool.or_eq_true, Bool.and_eq_true, decide_eq_true_eq, beq_iff_eq,
    UInt32.le_iff_toNat_le, ge_iff_le] at h
  have hval : c.toNat = c.val.toNat := rfl
  rcases h with (h | h) | rfl
  · have : 'A'.val.toNat = 65 := rfl
    have : 'Z'.val.toNat = 90 := rfl
    omega
  · have : 'a'.val.toNat = 97 := rfl
    have : 'z'.val.toNat = 122 := rfl
    omega
  · decide

/-- A digit is no blank. -/
theorem isBlank_of_isDigit {c : Char} (h : c.isDigit = true) :
  isBlank c = false
  := by
  apply isBlank_of_range
  simp only [Char.isDigit, Bool.and_eq_true, decide_eq_true_eq, UInt32.le_iff_toNat_le,
    ge_iff_le] at h
  have hval : c.toNat = c.val.toNat := rfl
  have : '0'.val.toNat = 48 := rfl
  have : '9'.val.toNat = 57 := rfl
  omega

/-- No name begins with a digit. -/
theorem isNameStart_of_isDigit {c : Char} (h : c.isDigit = true) :
  isNameStart c = false
  := by
  simp only [Char.isDigit, Bool.and_eq_true, decide_eq_true_eq, UInt32.le_iff_toNat_le,
    ge_iff_le] at h
  have : '0'.val.toNat = 48 := rfl
  have : '9'.val.toNat = 57 := rfl
  have : 'A'.val.toNat = 65 := rfl
  have : 'a'.val.toNat = 97 := rfl
  have hunder : c ≠ '_' := by
    rintro rfl
    exact absurd h (by decide)
  simp only [isNameStart_eq, Bool.or_eq_false_iff, Bool.and_eq_false_imp, decide_eq_true_eq,
    decide_eq_false_iff_not, UInt32.le_iff_toNat_le, ge_iff_le, beq_eq_false_iff_ne, ne_eq, hunder,
    not_false_eq_true, and_true]
  omega

/-- The escaped characters between quotes are read back. -/
theorem stringBody_escape_quote (cs : List Char) :
  stringBody '"' (escape cs ++ ['"']) = some (cs, (escape cs).length + 1)
  := by
  induction cs with
  | nil => simp [escape]
  | cons c cs ih =>
      unfold escape
      split
      next hc =>
        have hunescape : unescape c = c := by
          rcases hc with rfl | rfl
          · rfl
          · rfl
        rw [List.cons_append, List.cons_append, stringBody_escape (by decide), ih]
        simp [hunescape]
      next hc =>
        rw [not_or] at hc
        rw [List.cons_append, stringBody_plain hc.1 hc.2, ih]
        simp

/-! ### The words, one kind after the other -/

/-- Characters of a name are one lexeme: a reserved word or a name. -/
theorem lexeme_word {c : Char} {cs : List Char} (hc : isNameStart c = true)
    (hcs : ∀ d ∈ cs, isNamePart d = true) :
  lexeme c cs
    = ⟨.ofWord (String.ofList (c :: cs)), String.ofList (c :: cs), cs.length⟩
  := by
  simp only [lexeme, hc, ↓reduceIte, List.takeWhile_eq_self_iff.mpr hcs]

/-- Digits are one lexeme, a number. -/
theorem lexeme_digits {c : Char} {cs : List Char} (hc : c.isDigit = true)
    (hcs : ∀ d ∈ cs, d.isDigit = true) :
  lexeme c cs = ⟨.number, String.ofList (c :: cs), cs.length⟩
  := by
  simp only [lexeme, isNameStart_of_isDigit hc, hc, Bool.false_eq_true, ↓reduceIte,
    List.takeWhile_eq_self_iff.mpr hcs]

/-- Escaped characters between double quotes are one lexeme, a string. -/
theorem lexeme_quoted (text : String) :
  lexeme '"' (escape text.toList ++ ['"'])
    = ⟨.string, text, (escape text.toList ++ ['"']).length⟩
  := by
  have hname : isNameStart '"' = false := by decide
  have hdigit : '"'.isDigit = false := by decide
  simp [lexeme, hname, hdigit, stringBody_escape_quote]

/-- Every token whose kind says all of it is read as it is written. -/
theorem lexeme_written (kind : TokenKind) (h : kind.written ≠ "") :
  ∃ c cs, kind.written.toList = c :: cs ∧ isBlank c = false ∧ c ≠ '@' ∧ (c = '/' → cs = [])
    ∧ ¬ (c = '"' ∨ c = '\'') ∧ lexeme c cs = ⟨kind, kind.written, cs.length⟩
  := by
  cases kind
  all_goals first
    | exact absurd rfl h
    | exact ⟨_, _, rfl, by decide, by decide, by decide, by decide, by rfl⟩

/-- A token without its position. -/
abbrev atStart : Token → Token :=
  Token.move fun _ => .start

/-- A valid word is read as its tokens, whatever stands behind it. -/
theorem scan_word {w : PrintedWord} (hw : w.Valid) (p : Position) (ds : List Char) :
  (scan p 0 (w.chars ++ ' ' :: ds)).map atStart
    = w.tokens ++ (scan ((p.after w.chars).next ' ') 0 ds).map atStart
  := by
  have hbehind : ∀ d ∈ (' ' :: ds).head?, d = ' ' := by
    rintro d ⟨⟩
    rfl
  cases w with
  | fixed kind =>
      obtain ⟨c, cs, hchars, hblank, hat, hslash, hquote, hlexeme⟩ := lexeme_written kind hw
      have hclosed (h : Unclosed (c :: cs)) : ' ' :: ds = [] := absurd h.1 hquote
      rw [PrintedWord.chars, hchars,
        scan_lexeme hblank (fun h => absurd h hat) hslash hclosed hlexeme hbehind, scan_blank]
      rfl
  | name x =>
      obtain ⟨⟨c, cs, hchars, hc, hcs⟩, hkind⟩ := hw
      have hx : String.ofList (c :: cs) = x := by
        rw [← hchars, String.ofList_toList]
      have hlexeme := lexeme_word hc hcs
      rw [hx, hkind] at hlexeme
      rw [PrintedWord.chars, hchars, scan_lexeme_of_isNamePart (isBlank_of_isNameStart hc)
        (isNamePart_of_isNameStart hc) hlexeme hbehind, scan_blank]
      rfl
  | digits digits =>
      obtain ⟨hne, hall⟩ := hw
      obtain ⟨c, cs, rfl⟩ := List.exists_cons_of_ne_nil hne
      rw [List.forall_mem_cons] at hall
      obtain ⟨hc, hcs⟩ := hall
      have hpart : isNamePart c = true := by
        simp [isNamePart, Char.isAlphanum, hc]
      rw [PrintedWord.chars, scan_lexeme_of_isNamePart (isBlank_of_isDigit hc) hpart
        (lexeme_digits hc hcs) hbehind, scan_blank]
      rfl
  | quoted text =>
      have hat (h : '"' = '@') : escape text.toList ++ ['"'] = [] := absurd h (by decide)
      have hslash (h : '"' = '/') : escape text.toList ++ ['"'] = [] := absurd h (by decide)
      have hclosed : Unclosed ('"' :: (escape text.toList ++ ['"'])) → ' ' :: ds = [] := by
        rintro ⟨-, hnone⟩
        rw [stringBody_escape_quote] at hnone
        cases hnone
      rw [PrintedWord.chars,
        scan_lexeme (by decide) hat hslash hclosed (lexeme_quoted text) hbehind, scan_blank]
      rfl
  | decorator x =>
      obtain ⟨c, cs, hchars, hc, hcs⟩ := hw
      have hx : String.ofList (c :: cs) = x := by
        rw [← hchars, String.ofList_toList]
      have hpart : (c :: cs ++ ' ' :: ds).takeWhile isNamePart = c :: cs := by
        rw [takeWhile_append_stop _ stop_blank.name, List.takeWhile_eq_self_iff]
        exact List.forall_mem_cons.mpr ⟨isNamePart_of_isNameStart hc, hcs⟩
      rw [PrintedWord.chars, hchars, List.cons_append, scan_decorator (by simpa using hc), hpart,
        scan_skip, scan_blank, hx]
      rfl

/-- The text of valid words is read as their tokens. -/
theorem tokens_text {words : List PrintedWord} (h : ∀ w ∈ words, w.Valid) :
  (tokens (PrintedWord.text words)).map atStart = words.flatMap PrintedWord.tokens
  := by
  have key (p : Position) :
    (scan p 0 (words.flatMap fun w => w.chars ++ [' '])).map atStart
      = words.flatMap PrintedWord.tokens
    := by
    induction words generalizing p with
    | nil => rfl
    | cons w words ih =>
        rw [List.forall_mem_cons] at h
        rw [List.flatMap_cons, List.append_assoc, List.singleton_append, scan_word h.1, ih h.2,
          List.flatMap_cons]
  rw [tokens, PrintedWord.text, String.toList_ofList]
  exact key _

end Source

end Scriptlet
