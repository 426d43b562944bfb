import Scriptlet.Proofs.Lexing.Pieces
import Scriptlet.Proofs.Printing.Reading
import Scriptlet.Proofs.Showing.Text

/-!
# Tokens of literals

A literal as its value is shown is read as its words, whatever stands behind it that does not go on
with a name.  The escapes of a quoted text stand for the characters that they were made of.
-/

namespace Scriptlet

open Parse (mark)

mutual

/-- The tokens of a literal. -/
def Expr.marks : Expr → List Token
  | .null _ => [mark .nullWord]
  | .bool _ b => [mark (if b then .trueWord else .falseWord)]
  | .str _ s => [⟨.string, s, .start⟩]
  | .array _ es =>
    mark .leftBracket :: [mark .comma].intercalate (Expr.marksAll es) ++ [mark .rightBracket]
  | .hash _ entries =>
    mark .leftBrace :: [mark .comma].intercalate (Expr.marksEntries entries) ++ [mark .rightBrace]
  | _ => []

/-- The tokens of each of the literals. -/
def Expr.marksAll : List Expr → List (List Token)
  | [] => []
  | e :: es => e.marks :: Expr.marksAll es

/-- The tokens of each of the entries. -/
def Expr.marksEntries : List (Expr × Expr) → List (List Token)
  | [] => []
  | (key, value) :: rest => (key.marks ++ mark .colon :: value.marks) :: Expr.marksEntries rest

end

/-- The tokens of literals are those of each of them. -/
theorem Expr.marksAll_eq (es : List Expr) :
  Expr.marksAll es = es.map Expr.marks
  := by
  induction es with
  | nil => rfl
  | cons e es ih => rw [Expr.marksAll, ih, List.map_cons]

/-- The tokens of entries are those of the key and the value with a colon between them. -/
theorem Expr.marksEntries_eq (entries : List (Expr × Expr)) :
  Expr.marksEntries entries
    = entries.map fun entry => entry.1.marks ++ mark .colon :: entry.2.marks
  := by
  induction entries with
  | nil => rfl
  | cons entry entries ih => rw [Expr.marksEntries, ih, List.map_cons]

namespace Source

/-- Whether no name goes on with the characters. -/
def EndsName (cs : List Char) : Prop :=
  ∀ c ∈ cs.head?, isNamePart c = false

/-- Whether characters are read as tokens where no name goes on behind them. -/
def Scans (cs : List Char) (l : List Token) : Prop :=
  ∀ p rest, EndsName rest →
    (scan p 0 (cs ++ rest)).map atStart = l ++ (scan (p.after cs) 0 rest).map atStart

variable {c : Char} {cs ds : List Char} {l m : List Token} {kind : TokenKind}

/-- No characters are read as no tokens. -/
theorem scans_nil :
  Scans [] []
  := fun _ _ _ => rfl

/-- Characters one behind the other are read as their tokens, if no name goes on from the one to the
other. -/
theorem Scans.append (hcs : Scans cs l) (hds : Scans ds m) (hname : ∀ rest, EndsName (ds ++ rest)) :
  Scans (cs ++ ds) (l ++ m)
  := by
  intro p rest hrest
  rw [List.append_assoc, hcs p _ (hname rest), hds _ rest hrest, Position.after_append,
    List.append_assoc]

/-- A blank in front is passed over. -/
theorem Scans.blank (hcs : Scans cs l) :
  Scans (' ' :: cs) l
  := by
  intro p rest hrest
  rw [List.cons_append, scan_blank, hcs _ rest hrest, Position.after_cons]

/-- Whether a character is a token of its own, whatever stands behind it. -/
structure Lone (c : Char) (kind : TokenKind) : Prop where
  blank : isBlank c = false
  name : isNamePart c = false
  start : isNameStart c = false
  digit : c.isDigit = false
  other : c ≠ '@' ∧ c ≠ '/' ∧ ¬ (c = '"' ∨ c = '\'')
  double (d : Char) : double? c d = none
  single : single c = kind
  written : kind.written = String.ofList [c]

/-- Parentheses, brackets, braces, commas and colons are tokens of their own. -/
theorem lone_marks :
  Lone '(' .leftParen ∧ Lone ')' .rightParen ∧ Lone '[' .leftBracket ∧ Lone ']' .rightBracket
    ∧ Lone '{' .leftBrace ∧ Lone '}' .rightBrace ∧ Lone ',' .comma ∧ Lone ':' .colon
  := by
  refine ⟨?_, ?_, ?_, ?_, ?_, ?_, ?_, ?_⟩
  all_goals
    exact ⟨by decide, by decide, by decide, by decide, by decide, fun _ => rfl, rfl, rfl⟩

/-- A character that is a token of its own is read as that, with what is read behind it. -/
theorem Lone.scans (hc : Lone c kind) (hcs : Scans cs l) :
  Scans (c :: cs) (mark kind :: l)
  := by
  intro p rest hrest
  obtain ⟨hat, hslash, hquote⟩ := hc.other
  have hlexeme : lexeme c ([] ++ (cs ++ rest)) = ⟨kind, kind.written, 0⟩ := by
    rw [lexeme_single hc.start hc.digit hquote hc.double, hc.single, hc.written]
  rw [List.cons_append, ← List.singleton_append,
    scan_of_lexeme hc.blank (fun h => hslash h.1) (fun h => hat h.1) hlexeme, List.map_cons,
    hcs _ rest hrest]
  rfl

/-- No name goes on with a character that is a token of its own. -/
theorem Lone.endsName (hc : Lone c kind) (cs : List Char) :
  EndsName (c :: cs)
  := by
  rintro _ ⟨⟩
  exact hc.name

/-- A word is read as what it says. -/
theorem scans_word {word : String} (hword : word.toList = c :: cs) (hc : isNameStart c = true)
    (hcs : cs.all isNamePart = true) (hkind : .ofWord word = kind) :
  Scans word.toList [⟨kind, word, .start⟩]
  := by
  subst hkind
  intro p rest hrest
  rw [hword]
  have hat : c ≠ '@' := by
    rintro rfl
    exact absurd hc (by decide)
  have hslash : c ≠ '/' := by
    rintro rfl
    exact absurd hc (by decide)
  have hrest : rest.takeWhile isNamePart = [] := by
    cases rest with
    | nil => rfl
    | cons d rest => rw [List.takeWhile_cons_of_neg (by simpa using hrest d rfl)]
  have hpart : (cs ++ rest).takeWhile isNamePart = cs := by
    rw [List.takeWhile_append_of_pos (List.all_eq_true.mp hcs), hrest, List.append_nil]
  have hlexeme : lexeme c (cs ++ rest) = ⟨.ofWord word, word, cs.length⟩ := by
    simp only [lexeme, hc, ↓reduceIte, hpart, ← hword, String.ofList_toList]
  rw [scan_of_lexeme (isBlank_of_isNameStart hc) (fun h => hslash h.1) (fun h => hat h.1) hlexeme]
  rfl

/-- The escapes of a readable character stand for it between double quotes. -/
theorem body_character (hc : isReadable c = true) {written content : List Char}
    (h : Body '"' written content) :
  Body '"' (Quoted.character c ++ written) (c :: content)
  := by
  unfold Quoted.character
  split
  case h_7 hzero htab hreturn hnewline hquote hbackslash =>
    have hrange : 32 ≤ c.toNat ∧ c.toNat ≤ 126 := by
      simp only [isReadable, Bool.or_eq_true, Bool.and_eq_true, decide_eq_true_eq, beq_iff_eq] at hc
      rcases hc with (((hrange | hc) | hc) | hc) | hc
      · exact hrange
      · exact (hnewline hc).elim
      · exact (htab hc).elim
      · exact (hreturn hc).elim
      · exact (hzero hc).elim
    have hshown : isHidden c = false := by
      have hlow : c.toNat < 0x7F := by omega
      simp only [isHidden, hlow, ↓reduceIte, decide_eq_false_iff_not]
      omega
    rw [hshown]
    exact .plain hquote hbackslash h
  all_goals exact .escaped h

/-- The escaped characters of a readable string are what can stand between its quotes. -/
theorem body_characters (h : ∀ c ∈ cs, isReadable c = true) :
  Body '"' (cs.flatMap Quoted.character) cs
  := by
  induction cs with
  | nil => exact .nil
  | cons c cs ih =>
      obtain ⟨hc, hcs⟩ := List.forall_mem_cons.mp h
      exact body_character hc (ih hcs)

/-- A readable string as it is shown is read as that string. -/
theorem scans_quoted {s : String} (h : ∀ c ∈ s.toList, isReadable c = true) :
  Scans (quoted s).toList [⟨.string, s, .start⟩]
  := by
  intro p rest _
  have hbody := (body_characters h).stringBody_eq (by decide) rest
  have hname : isNameStart '"' = false := by decide
  have hdigit : '"'.isDigit = false := by decide
  have hchars : (quoted s).toList
      = '"' :: (s.toList.flatMap Quoted.character ++ ['"']) := String.toList_ofList
  have hlexeme : lexeme '"' (s.toList.flatMap Quoted.character ++ ['"'] ++ rest)
      = ⟨.string, s, (s.toList.flatMap Quoted.character ++ ['"']).length⟩ := by
    rw [List.append_assoc, List.singleton_append]
    simp [lexeme, hname, hdigit, hbody]
  have hslash : '"' ≠ '/' := by decide
  have hat : '"' ≠ '@' := by decide
  rw [hchars, scan_of_lexeme (by decide) (fun h => hslash h.1) (fun h => hat h.1) hlexeme]
  rfl

/-- Parts with commas between them are read one by one. -/
theorem scans_commas {parts : List (List Char)} {words : List (List Token)}
    (h : List.Forall₂ Scans parts words) (hcs : Scans cs l)
    (hname : ∀ rest, EndsName (cs ++ rest)) :
  Scans ([',', ' '].intercalate parts ++ cs) ([mark .comma].intercalate words ++ l)
  := by
  obtain ⟨-, -, -, -, -, -, hcomma, -⟩ := lone_marks
  induction h with
  | nil => exact hcs
  | cons hpart hrest ih =>
      cases hrest with
      | nil =>
          rw [List.intercalate_singleton, List.intercalate_singleton]
          exact hpart.append hcs hname
      | cons =>
          rw [List.intercalate_cons_cons, List.intercalate_cons_cons, List.append_assoc,
            List.append_assoc, List.append_assoc, List.append_assoc]
          exact hpart.append (hcomma.scans ih.blank) fun rest => hcomma.endsName _

end Source

open Source

/-- A literal as its value is shown is read as its tokens. -/
theorem Expr.Spells.scans {h : Heap} {e : Expr} {v : Value} (he : e.Spells h v) :
  Scans e.shown e.marks
  := by
  obtain ⟨-, -, hopen, hclose, hopen', hclose', -, hcolon⟩ := lone_marks
  have hP : h.Hereditary fun e _ => Scans e.shown e.marks := by
    constructor
    case null =>
      have hword : "null".toList = 'n' :: ['u', 'l', 'l'] := rfl
      exact fun _ => scans_word hword (by decide) (by decide) (by decide)
    case bool =>
      intro pos b
      cases b
      · have hword : "false".toList = 'f' :: ['a', 'l', 's', 'e'] := rfl
        exact scans_word hword (by decide) (by decide) (by decide)
      · have hword : "true".toList = 't' :: ['r', 'u', 'e'] := rfl
        exact scans_word hword (by decide) (by decide) (by decide)
    case str => exact fun _ s hs => scans_quoted hs
    case array =>
      intro pos es i _ hes
      have hparts : List.Forall₂ Scans (es.map Expr.shown) (es.map Expr.marks) :=
        forall₂_map_map hes fun _ _ he => he.2
      rw [Expr.shown, Expr.marks, Expr.shownAll_eq, Expr.marksAll_eq]
      exact hopen.scans (scans_commas hparts (hclose.scans scans_nil) hclose.endsName)
    case hash =>
      intro pos entries i _ hentries
      have hparts : List.Forall₂ Scans
          (entries.map fun entry => entry.1.shown ++ [':', ' '] ++ entry.2.shown)
          (entries.map fun entry => entry.1.marks ++ mark .colon :: entry.2.marks) := by
        refine forall₂_map_map hentries fun entry pair hentry => ?_
        obtain ⟨⟨-, hkey⟩, -, hvalue⟩ := hentry
        rw [List.append_assoc]
        exact hkey.append (hcolon.scans hvalue.blank) fun rest => hcolon.endsName _
      rw [Expr.shown, Expr.marks, Expr.shownEntries_eq, Expr.marksEntries_eq]
      exact hopen'.scans (scans_commas hparts (hclose'.scans scans_nil) hclose'.endsName)
  exact hP.spells e he

/-- The tokens of a value that is shown in parentheses. -/
theorem Expr.Spells.tokens_grouped {h : Heap} {e : Expr} {v : Value} (he : e.Spells h v) :
  (tokens ("(" ++ h.inspect v ++ ")")).map atStart
    = mark .leftParen :: (e.marks ++ [mark .rightParen])
  := by
  obtain ⟨hopen, hclose, -⟩ := lone_marks
  have hchars : ("(" ++ h.inspect v ++ ")").toList = '(' :: (e.shown ++ [')']) := by
    rw [String.toList_append, String.toList_append, Heap.toList_inspect he]
    rfl
  have hscans : Scans ('(' :: (e.shown ++ [')']))
      (mark .leftParen :: (e.marks ++ [mark .rightParen])) :=
    hopen.scans (he.scans.append (hclose.scans scans_nil) hclose.endsName)
  have hall := hscans .start [] (by rintro c ⟨⟩)
  rw [List.append_nil] at hall
  rw [tokens, hchars, hall]
  exact List.append_nil _

end Scriptlet
