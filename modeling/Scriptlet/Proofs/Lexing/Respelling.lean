import Mathlib.Data.List.TakeWhile
import Scriptlet.Proofs.Lexing.Lines
import Scriptlet.Proofs.Printing.Word

/-!
# Tokens written back

The tokens of a text are written back with a blank between them, each as its text, but strings
between double quotes, and a decorator right in front of its name.  What is written so is read as
the same tokens.  For a token that is read up to some character is the longest one up to there, and
nothing goes on with a blank.
-/

namespace Scriptlet

open PrintedWord (escape)
open Source

namespace Token

/-- What a token is, wherever it stands. -/
def word (t : Token) : TokenKind × String :=
  (t.kind, t.text)

/-- How a token is written back: a string between double quotes, with a backslash in front of double
quotes and backslashes, any other token as its text. -/
def chars (t : Token) : List Char :=
  if t.kind = .string then '"' :: (escape t.text.toList ++ ['"']) else t.text.toList

/-- Tokens written back with a blank between them, but for that between a decorator and its name. -/
def respell : List Token → List Char
  | [] => []
  | [t] => t.chars
  | t :: u :: rest =>
    t.chars ++ (if t.kind = .decorator then [] else [' ']) ++ respell (u :: rest)

/-- Whether a token that is written back is read again where nothing or a blank stands behind it. -/
def Alone (t : Token) : Prop :=
  ∃ c cs, t.chars = c :: cs ∧ isBlank c = false ∧ (c = '@' → cs = []) ∧ (c = '/' → cs = [])
    ∧ lexeme c cs = ⟨t.kind, t.text, cs.length⟩

/-- Whether each of the tokens can be read again on its own, but for the names of decorators, which
may be reserved words, and whether only the last of them is a string that is never closed. -/
inductive Respellable : List Token → Prop where
  | nil : Respellable []
  | alone {t : Token} {l : List Token} : t.kind ≠ .decorator → t.Alone →
    (Unterminated t → l = []) → Respellable l → Respellable (t :: l)
  | decorator {t u : Token} {l : List Token} : t.word = (.decorator, "@") →
    u.kind = .identifier → IsWord u.text → Respellable l → Respellable (t :: u :: l)

end Token

namespace Source

open Token (respell Respellable)

/-! ### The longest token -/

/-- A token is read in the same way from its own characters. -/
theorem lexeme_take (c : Char) (cs : List Char) :
  lexeme c (cs.take (lexeme c cs).more) = lexeme c cs
  := by
  unfold lexeme
  split
  · dsimp only
    rw [take_takeWhile, List.takeWhile_idem]
  · split
    · dsimp only
      rw [take_takeWhile, List.takeWhile_idem]
    · split
      next hquote =>
        cases hbody : stringBody c cs with
        | some found =>
            obtain ⟨written, rest, rfl, hn, hwritten⟩ := exists_body hbody
            have hbackslash : '\\' ≠ c := by
              rcases hquote with rfl | rfl
              all_goals decide
            dsimp only
            rw [hn, List.take_length_add_append, List.take_succ_cons, List.take_zero,
              hwritten.stringBody_eq hbackslash, ← hn]
        | none =>
            dsimp only
            rw [List.take_length, hbody]
      next =>
        rcases cs with _ | ⟨d, cs⟩
        · rfl
        · cases hdouble : double? c d with
          | none => simp [hdouble]
          | some kind => simp [hdouble]

/-- A token that is not behind an `@` is read again on its own. -/
theorem alone_lexeme {c : Char} {cs : List Char} (hblank : isBlank c = false) (p : Position) :
  Token.Alone ⟨(lexeme c cs).kind, (lexeme c cs).text, p⟩
  := by
  obtain ⟨-, hspells⟩ := spells_lexeme c cs p
  by_cases hkind : (lexeme c cs).kind = .string
  · refine ⟨'"', escape (lexeme c cs).text.toList ++ ['"'], if_pos hkind, by decide, ?_, ?_, ?_⟩
    · rintro ⟨⟩
    · rintro ⟨⟩
    · rw [lexeme_quoted, hkind]
  · have hsingle (hc : c = '@' ∨ c = '/') : (lexeme c cs).more = 0 := by
      rcases hc with rfl | rfl
      all_goals
        rw [lexeme_single (by decide) (by decide) (by decide) (by simp [double?])]
    refine ⟨c, cs.take (lexeme c cs).more, ?_, hblank, ?_, ?_, ?_⟩
    · rw [Token.chars, if_neg hkind, hspells.plain hkind, String.toList_ofList]
    · intro hc
      rw [hsingle (.inl hc), List.take_zero]
    · intro hc
      rw [hsingle (.inr hc), List.take_zero]
    · rw [lexeme_take, List.length_take_of_le (lexeme_le c cs)]

/-- The tokens of a text can be read again. -/
theorem scan_respellable (p : Position) (k : Nat) (cs : List Char) :
  Respellable (scan p k cs)
  := by
  apply scan_induction .nil
  · intro p p' x l hx hl
    exact .decorator rfl rfl hx hl
  · intro p p' c cs hblank hl
    refine .alone (lexeme_spelled c cs).1 (alone_lexeme hblank p) (fun hopen => ?_) hl
    obtain ⟨hbehind, -⟩ := (spells_lexeme c cs p).2.unclosed hopen
    rw [scan_eq_scan_drop _ (lexeme_le c cs), hbehind]
    rfl

/-! ### Reading what is written back -/

/-- A token that can be read on its own is read up to the end of the text or the blank behind it. -/
theorem scan_alone {t : Token} (ht : t.Alone) {rest : List Char}
    (hrest : ∀ d ∈ rest.head?, d = ' ') (hopen : Unterminated t → rest = []) (p : Position) :
  scan p 0 (t.chars ++ rest) = ⟨t.kind, t.text, p⟩ :: scan (p.after t.chars) 0 rest
  := by
  obtain ⟨c, cs, hchars, hblank, hat, hslash, hlexeme⟩ := ht
  have hclosed (h : Unclosed (c :: cs)) : rest = [] := by
    have hunterminated := unterminated_lexeme h p
    rw [hlexeme] at hunterminated
    exact hopen hunterminated
  rw [hchars, scan_lexeme hblank hat hslash hclosed hlexeme hrest]

/-- The name of a decorator is read as a name up to the end of the text or the blank behind it. -/
theorem scan_at {name : String} (hname : IsWord name) {rest : List Char}
    (hrest : ∀ d ∈ rest.head?, d = ' ') (p : Position) :
  scan p 0 ('@' :: (name.toList ++ rest))
    = ⟨.decorator, "@", p⟩ :: ⟨.identifier, name, p.next '@'⟩
      :: scan ((p.next '@').after name.toList) 0 rest
  := by
  obtain ⟨c, cs, hchars, hc, hcs⟩ := hname
  have hall : ∀ d ∈ name.toList, isNamePart d = true := by
    rw [hchars]
    exact List.forall_mem_cons.mpr ⟨isNamePart_of_isNameStart hc, hcs⟩
  have hstart : (name.toList ++ rest).head?.any isNameStart = true := by
    rw [hchars]
    exact hc
  have hbehind : rest.takeWhile isNamePart = [] := by
    rcases rest with _ | ⟨d, rest⟩
    · rfl
    · obtain rfl := hrest d rfl
      rfl
  have hpart : (name.toList ++ rest).takeWhile isNamePart = name.toList := by
    rw [List.takeWhile_append_of_pos hall, hbehind, List.append_nil]
  rw [scan_decorator hstart, hpart, scan_skip, String.ofList_toList]

/-- Nothing is read of blanks. -/
theorem scan_blanks {rest : List Char} (hrest : ∀ d ∈ rest, d = ' ') (p : Position) :
  scan p 0 rest = []
  := by
  induction rest generalizing p with
  | nil => rfl
  | cons d rest ih =>
      obtain ⟨rfl, hblanks⟩ := List.forall_mem_cons.mp hrest
      rw [scan_blank, ih hblanks]

/-- What is written behind a token that is no decorator. -/
def behind (l : List Token) (rest : List Char) : List Char :=
  if l = [] then rest else ' ' :: (respell l ++ rest)

variable {l : List Token} {rest : List Char}

/-- A token that is no decorator is written in front of a blank and the others. -/
theorem respell_cons {t : Token} (ht : t.kind ≠ .decorator) :
  respell (t :: l) ++ rest = t.chars ++ behind l rest
  := by
  cases l with
  | nil => rfl
  | cons u l => simp [respell, behind, ht]

/-- Behind a token that is no decorator there is a blank or nothing. -/
theorem head?_behind (hrest : ∀ d ∈ rest, d = ' ') :
  ∀ d ∈ (behind l rest).head?, d = ' '
  := by
  unfold behind
  split
  · exact fun d hd => hrest d (List.mem_of_mem_head? hd)
  · rintro d ⟨⟩
    rfl

/-- What is written behind a token is read as the other tokens. -/
theorem scan_behind (p : Position) (hrest : ∀ d ∈ rest, d = ' ') :
  scan p 0 (behind l rest) = if l = [] then [] else scan (p.next ' ') 0 (respell l ++ rest)
  := by
  unfold behind
  split
  · exact scan_blanks hrest p
  · exact scan_blank p _

/-- Tokens that can be read again are read from what is written back, whatever blanks stand behind
it unless the last of them is a string that is never closed. -/
theorem scan_respell (hl : Respellable l) (hrest : ∀ d ∈ rest, d = ' ')
    (hopen : ∀ t ∈ l, Unterminated t → rest = []) (p : Position) :
  (scan p 0 (respell l ++ rest)).map Token.word = l.map Token.word
  := by
  induction hl generalizing p with
  | nil => rw [respell, List.nil_append, scan_blanks hrest]
  | @alone t l hkind ht hlast _ ih =>
      obtain ⟨hopen, hopens⟩ := List.forall_mem_cons.mp hopen
      have hbehind (h : Unterminated t) : behind l rest = [] := by
        rw [behind, if_pos (hlast h), hopen h]
      rw [respell_cons hkind, scan_alone ht (head?_behind hrest) hbehind, scan_behind _ hrest]
      split
      next hnil =>
        subst hnil
        rfl
      next => rw [List.map_cons, ih hopens, List.map_cons, Token.word, Token.word]
  | @decorator t u l ht hu hname _ ih =>
      obtain ⟨-, -, hopens⟩ := (List.forall_mem_cons.trans (and_congr_right fun _ =>
        List.forall_mem_cons)).mp hopen
      obtain ⟨hkind, htext⟩ := Prod.mk.inj ht
      -- No blank stands between the sign of a decorator and its name.
      have hchars : respell (t :: u :: l) ++ rest = '@' :: (u.text.toList ++ behind l rest) := by
        have hstring : u.kind ≠ .string := by
          rw [hu]
          rintro ⟨⟩
        have hdecorator : u.kind ≠ .decorator := by
          rw [hu]
          rintro ⟨⟩
        have hbehind : respell (u :: l) ++ rest = u.chars ++ behind l rest :=
          respell_cons hdecorator
        rw [Token.chars, if_neg hstring] at hbehind
        rw [respell, if_pos hkind, List.append_nil, List.append_assoc, hbehind, Token.chars, hkind,
          htext]
        rfl
      rw [hchars, scan_at hname (head?_behind hrest), scan_behind _ hrest, List.map_cons,
        List.map_cons, List.map_cons, List.map_cons, ht, Token.word.eq_def u, hu]
      split
      next hnil =>
        subst hnil
        rfl
      next =>
        rw [ih hopens]
        rfl

/-- The tokens of a text written back. -/
def respelled (text : String) : String :=
  String.ofList (respell (tokens text))

/-- The text that the tokens of a text are written back as is read as tokens of the same kinds and
texts, in the same order.  If each string is closed, it is so too with a blank behind it, which is
where the end, a token without characters, would be written. -/
theorem listing_respelled (text : String) :
  (listing (respelled text)).map Token.word = (listing text).map Token.word
  ∧ ((∀ t ∈ listing text, ¬ Unterminated t) →
    (listing (respelled text ++ " ")).map Token.word = (listing text).map Token.word)
  := by
  have hspellable : Respellable (tokens text) := scan_respellable _ _ _
  have hlisting (other : String)
      (h : (tokens other).map Token.word = (tokens text).map Token.word) :
    (listing other).map Token.word = (listing text).map Token.word
    := by
    rw [listing, listing, List.map_append, List.map_append, h]
    rfl
  constructor
  · apply hlisting
    have hscan := scan_respell hspellable (List.forall_mem_nil _) (fun _ _ _ => rfl) .start
    rw [List.append_nil] at hscan
    rw [tokens, respelled, String.toList_ofList, hscan]
  · intro hclosed
    apply hlisting
    rw [tokens, respelled, String.toList_append, String.toList_ofList]
    apply scan_respell hspellable
    · exact List.forall_mem_singleton.mpr rfl
    · intro t ht hopen
      exact absurd hopen (hclosed t (List.mem_append_left _ ht))

/-- A string with both kinds of quotes and a backslash, a comment, a reserved word behind an `@`, a
number in front of a name, and characters that start no token. -/
theorem listing_respelled_words :
  let text := "'it\\'s \"\\\\' // c\n@let 1a#&@"
  (∀ t ∈ listing text, ¬ Unterminated t)
  ∧ respelled text = "\"it's \\\"\\\\\" @let 1 a # & @"
  ∧ (listing (respelled text ++ " ")).map Token.word = (listing text).map Token.word
  := by
  intro text
  have hclosed : ∀ t ∈ listing text, ¬ Unterminated t := by decide +kernel
  have hrespelled : respelled text = "\"it's \\\"\\\\\" @let 1 a # & @" := by decide +kernel
  exact ⟨hclosed, hrespelled, (listing_respelled text).2 hclosed⟩

end Source

end Scriptlet
