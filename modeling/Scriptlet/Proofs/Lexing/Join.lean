import Scriptlet.Proofs.Tree.Map
import Scriptlet.Source

/-!
# Joined texts

The tokens of two texts on lines of their own are those of the one and then those of the other,
moved down, unless a string of the first text is never closed.
-/

namespace Scriptlet

namespace Position

/-- The position `n` lines further down. -/
def down (n : Nat) (p : Position) : Position :=
  ⟨p.line + n, p.column⟩

/-- Moving down and going over a character can be done in either order. -/
theorem down_next (n : Nat) (p : Position) (c : Char) :
  (p.next c).down n = (p.down n).next c
  := by
  unfold next down
  split
  · simp
    omega
  · rfl

/-- Different positions stay different further down. -/
theorem down_injective (n : Nat) :
  Function.Injective (down n)
  := by
  rintro ⟨line, column⟩ ⟨line', column'⟩ h
  simp only [down, mk.injEq] at h ⊢
  omega

end Position

namespace Source

/-- Whether no token goes on with a character. -/
structure Stop (x : Char) : Prop where
  name : isNamePart x = false
  digit : x.isDigit = false
  double (c : Char) : double? c x = none

/-- A line feed ends every lexeme. -/
theorem stop_newline :
  Stop '\n'
  := by
  constructor
  · decide
  · decide
  · intro c
    unfold double?
    split <;> simp_all

/-- Whether the characters start with a quote that is never closed. -/
def Unclosed : List Char → Prop
  | [] => False
  | c :: cs => (c = '"' ∨ c = '\'') ∧ stringBody c cs = none

/-- Whether a token is a string that is never closed. -/
def Unterminated (t : Token) : Prop :=
  t.kind = .illegal ∧ t.text.toList.head?.any (fun c => c == '"' || c == '\'') = true

instance (t : Token) : Decidable (Unterminated t) :=
  inferInstanceAs (Decidable (_ ∧ _))

/-- What is taken up to a character is taken whatever stands behind that. -/
theorem takeWhile_append_stop (p : Char → Bool) {x : Char} (hx : p x = false)
    (cs ds : List Char) :
  (cs ++ x :: ds).takeWhile p = cs.takeWhile p
  := by
  induction cs with
  | nil => simp [hx]
  | cons c cs ih =>
      by_cases hc : p c = true
      · simp [hc, ih]
      · simp [hc]

/-- A string ends at its quote. -/
@[simp] theorem stringBody_quote (quote : Char) (cs : List Char) :
  stringBody quote (quote :: cs) = some ([], 1)
  := by
  rw [stringBody.eq_def]
  simp

/-- A backslash and the character behind it stand for one character of a string. -/
theorem stringBody_escape {quote : Char} (h : '\\' ≠ quote) (e : Char) (cs : List Char) :
  stringBody quote ('\\' :: e :: cs)
    = (stringBody quote cs).map fun (body, n) => (unescape e :: body, n + 2)
  := by
  rw [stringBody.eq_def]
  simp [h]

/-- A character that is neither the quote nor a backslash stands for itself. -/
theorem stringBody_plain {quote c : Char} (hq : c ≠ quote) (hc : c ≠ '\\') (cs : List Char) :
  stringBody quote (c :: cs) = (stringBody quote cs).map fun (body, n) => (c :: body, n + 1)
  := by
  rw [stringBody.eq_def]
  simp [hq, hc]

/-- A string that is closed is the same whatever stands behind it. -/
theorem stringBody_append (quote : Char) (cs ds : List Char) {found : List Char × Nat}
    (h : stringBody quote cs = some found) :
  stringBody quote (cs ++ ds) = some found
  := by
  induction cs using stringBody.induct quote generalizing found with
  | case1 => simp [stringBody] at h
  | case2 cs => simpa using h
  | case3 hquote => simp [stringBody, hquote] at h
  | case4 e rest hquote ih =>
      rw [stringBody_escape hquote, Option.map_eq_some_iff] at h
      obtain ⟨⟨body, n⟩, hbody, rfl⟩ := h
      simp [stringBody_escape hquote, ih hbody]
  | case5 c cs hquote hc ih =>
      rw [stringBody_plain hquote hc, Option.map_eq_some_iff] at h
      obtain ⟨⟨body, n⟩, hbody, rfl⟩ := h
      simp [stringBody_plain hquote hc, ih hbody]

/-- A string that is closed ends within the text. -/
theorem stringBody_le (quote : Char) (cs : List Char) {body : List Char} {n : Nat}
    (h : stringBody quote cs = some (body, n)) :
  n ≤ cs.length
  := by
  induction cs using stringBody.induct quote generalizing body n with
  | case1 => simp [stringBody] at h
  | case2 cs =>
      simp only [stringBody_quote, Option.some.injEq, Prod.mk.injEq] at h
      simp
      omega
  | case3 hquote => simp [stringBody, hquote] at h
  | case4 e rest hquote ih =>
      rw [stringBody_escape hquote, Option.map_eq_some_iff] at h
      obtain ⟨⟨body', n'⟩, hbody, heq⟩ := h
      have := ih hbody
      simp only [Prod.mk.injEq] at heq
      simp
      omega
  | case5 c cs hquote hc ih =>
      rw [stringBody_plain hquote hc, Option.map_eq_some_iff] at h
      obtain ⟨⟨body', n'⟩, hbody, heq⟩ := h
      have := ih hbody
      simp only [Prod.mk.injEq] at heq
      simp
      omega

/-- A word or operator ends where the text does at the latest. -/
theorem lexeme_le (c : Char) (cs : List Char) :
  (lexeme c cs).more ≤ cs.length
  := by
  unfold lexeme
  split
  · exact (List.takeWhile_prefix _).length_le
  · split
    · exact (List.takeWhile_prefix _).length_le
    · split
      · split
        next body n h => exact stringBody_le c cs h
        next => exact Nat.le_refl _
      · split
        next h =>
          cases cs with
          | nil => simp at h
          | cons d cs => simp
        next => simp

/-- The word or operator that starts with `c` does not depend on what stands behind a character
that no token goes on with. -/
theorem lexeme_append {x : Char} (hx : Stop x) (c : Char) (cs ds : List Char)
    (hopen : ¬ Unclosed (c :: cs)) :
  lexeme c (cs ++ x :: ds) = lexeme c cs
  := by
  unfold lexeme
  simp only [takeWhile_append_stop _ hx.name, takeWhile_append_stop _ hx.digit]
  split
  · rfl
  · split
    · rfl
    · split
      next hquote =>
        cases hbody : stringBody c cs with
        | none => exact absurd ⟨hquote, hbody⟩ hopen
        | some found => rw [stringBody_append c cs (x :: ds) hbody]
      next =>
        cases cs with
        | nil => simp [hx.double]
        | cons d cs => rfl

/-- A quote that is never closed starts a token that is a string that is never closed. -/
theorem unterminated_lexeme {c : Char} {cs : List Char} (h : Unclosed (c :: cs)) (p : Position) :
  Unterminated ⟨(lexeme c cs).kind, (lexeme c cs).text, p⟩
  := by
  obtain ⟨hc, hbody⟩ := h
  have hname : isNameStart c = false := by
    rcases hc with rfl | rfl
    · decide
    · decide
  have hdigit : c.isDigit = false := by
    rcases hc with rfl | rfl
    · decide
    · decide
  have hlexeme : lexeme c cs = ⟨.illegal, String.ofList (c :: cs), cs.length⟩ := by
    simp [lexeme, hname, hdigit, hc, hbody]
  rw [hlexeme]
  constructor
  · rfl
  · simpa using hc

/-- A character that no name, number, string or operator of two characters starts with is a token
of its own. -/
theorem lexeme_single {c : Char} (hname : isNameStart c = false) (hdigit : c.isDigit = false)
    (hquote : ¬ (c = '"' ∨ c = '\'')) (hdouble : ∀ d, double? c d = none) (cs : List Char) :
  lexeme c cs = ⟨single c, String.ofList [c], 0⟩
  := by
  have hnone : (cs.head?.bind fun d => (double? c d).map fun kind => (d, kind)) = none := by
    cases cs.head? with
    | none => rfl
    | some d => simp [hdouble]
  simp only [lexeme, hname, hdigit, hquote, hnone, Bool.false_eq_true, ↓reduceIte]

/-- Characters that have been read already are skipped. -/
theorem scan_skip (p : Position) (cs ds : List Char) :
  scan p cs.length (cs ++ ds) = scan (p.after cs) 0 ds
  := by
  induction cs generalizing p with
  | nil => rfl
  | cons c cs ih => exact ih (p.next c)

/-- A word or operator is read where it is the longest one, and then what stands behind it. -/
theorem scan_of_lexeme {c : Char} {cs rest : List Char} {kind : TokenKind} {word : String}
    (hblank : isBlank c = false) (hcomment : ¬ (c = '/' ∧ (cs ++ rest).head? = some '/'))
    (hname : ¬ (c = '@' ∧ (cs ++ rest).head?.any isNameStart = true))
    (hlexeme : lexeme c (cs ++ rest) = ⟨kind, word, cs.length⟩) (p : Position) :
  scan p 0 (c :: cs ++ rest) = ⟨kind, word, p⟩ :: scan (p.after (c :: cs)) 0 rest
  := by
  simp only [List.cons_append, scan, hblank, Bool.false_eq_true, hcomment, hname, ↓reduceIte,
    hlexeme]
  rw [scan_skip, Position.after_cons]

/-- The tokens in front of a line feed do not depend on what stands behind it, unless a string is
never closed. -/
theorem scan_append (p : Position) (k : Nat) (cs ds : List Char) (hk : k ≤ cs.length)
    (h : ∀ t ∈ scan p k cs, ¬ Unterminated t) :
  scan p k (cs ++ '\n' :: ds) = scan p k cs ++ scan ((p.after cs).next '\n') 0 ds
  := by
  induction cs generalizing p k with
  | nil =>
      obtain rfl : k = 0 := by simpa using hk
      simp [scan, isBlank, blankRanges]
  | cons c cs ih =>
      cases k with
      | succ k =>
          simp only [List.cons_append, scan, Position.after_cons] at h ⊢
          exact ih (p.next c) k (by simpa using hk) h
      | zero =>
          -- What stands behind the line feed does not change how the next token is told from
          -- others.
          have hname : (cs ++ '\n' :: ds).takeWhile isNamePart = cs.takeWhile isNamePart :=
            takeWhile_append_stop _ stop_newline.name cs ds
          have hcomment : (cs ++ '\n' :: ds).takeWhile (· ≠ '\n') = cs.takeWhile (· ≠ '\n') :=
            takeWhile_append_stop _ (by simp) cs ds
          have hslash : (cs ++ '\n' :: ds).head? = some '/' ↔ cs.head? = some '/' := by
            cases cs with
            | nil => simp
            | cons d cs => simp
          have hstart : (cs ++ '\n' :: ds).head?.any isNameStart = cs.head?.any isNameStart := by
            cases cs with
            | nil => simp [isNameStart]
            | cons d cs => simp
          simp only [List.cons_append, scan, Position.after_cons, hname, hcomment, hslash,
            hstart] at h ⊢
          split at h
          next hb =>
            simp only [hb, ↓reduceIte]
            exact ih (p.next c) 0 (Nat.zero_le _) h
          next hb =>
            simp only [hb, ↓reduceIte, Bool.false_eq_true]
            split at h
            next hc =>
              rw [if_pos hc, if_pos hc]
              exact ih (p.next c) _ (List.takeWhile_prefix _).length_le h
            next hc =>
              rw [if_neg hc, if_neg hc]
              split at h
              next hd =>
                rw [if_pos hd, if_pos hd]
                simp only [List.mem_cons, forall_eq_or_imp] at h
                rw [ih (p.next c) _ (List.takeWhile_prefix _).length_le h.2.2]
                rfl
              next hd =>
                rw [if_neg hd, if_neg hd]
                have hopen : ¬ Unclosed (c :: cs) := by
                  intro hopen
                  exact h _ List.mem_cons_self (unterminated_lexeme hopen p)
                rw [lexeme_append stop_newline c cs ds hopen]
                simp only [List.mem_cons, forall_eq_or_imp] at h
                rw [ih (p.next c) _ (lexeme_le c cs) h.2]
                rfl

/-- Tokens further down are the same tokens, moved down. -/
theorem scan_down (n : Nat) (p : Position) (k : Nat) (cs : List Char) :
  scan (p.down n) k cs = (scan p k cs).map (Token.move (Position.down n))
  := by
  induction cs generalizing p k with
  | nil => rfl
  | cons c cs ih =>
      cases k with
      | succ k =>
          simp only [scan]
          rw [← Position.down_next, ih]
      | zero =>
          simp only [scan, ← Position.down_next, ih]
          split
          · rfl
          · split
            · rfl
            · split
              · rfl
              · rfl

/-- Going over characters leads down by one line for each line feed. -/
theorem after_line (p : Position) (cs : List Char) :
  (p.after cs).line = p.line + cs.count '\n'
  := by
  induction cs generalizing p with
  | nil => rfl
  | cons c cs ih =>
      rw [Position.after_cons, ih, List.count_cons]
      unfold Position.next
      split
      next hc =>
        simp [hc]
        omega
      next hc => simp [hc]

/-- The number of lines that a text ends. -/
def lineFeeds (text : String) : Nat :=
  text.toList.count '\n'

/-- The semicolon on a line of its own behind a text. -/
def separator (text : String) : Token :=
  ⟨.semicolon, ";", ⟨lineFeeds text + 2, 1⟩⟩

/-- The tokens of a text that starts on the line behind that semicolon. -/
def below (text other : String) : List Token :=
  (tokens other).map (Token.move (Position.down (lineFeeds (text ++ "\n;\n"))))

/-- A line feed behind a text leads to the start of a line, one line further down than the text ends
lines. -/
theorem after_line_feed (text : String) :
  (finish text).next '\n' = Position.start.down (lineFeeds text + 1)
  := by
  unfold Position.next
  simp only [↓reduceIte, finish, after_line, Position.start, Position.down, lineFeeds,
    Position.mk.injEq, and_true]
  omega

/-- The tokens of two texts on lines of their own. -/
theorem tokens_line (text other : String) (h : ∀ t ∈ tokens text, ¬ Unterminated t) :
  tokens (text ++ "\n" ++ other)
    = tokens text ++ (tokens other).map (Token.move (Position.down (lineFeeds text + 1)))
  := by
  have hlist : (text ++ "\n" ++ other).toList = text.toList ++ '\n' :: other.toList := by
    simp [String.toList_append]
  have hline := after_line_feed text
  unfold finish at hline
  unfold tokens
  rw [hlist, scan_append _ _ _ _ (Nat.zero_le _) h, hline, scan_down]

/-- The tokens of two texts with a semicolon on a line of its own between them. -/
theorem tokens_join (text other : String) (h : ∀ t ∈ tokens text, ¬ Unterminated t) :
  tokens (text ++ "\n;\n" ++ other) = tokens text ++ [separator text] ++ below text other
  := by
  have hsemi : tokens ";" = [⟨.semicolon, ";", .start⟩] := by decide +kernel
  have hclosed : ∀ t ∈ tokens ";", ¬ Unterminated t := by
    rw [hsemi]
    decide
  have htext : text ++ "\n;\n" ++ other = text ++ "\n" ++ (";" ++ "\n" ++ other) := by
    simp [← String.toList_inj, String.toList_append]
  have hlines : lineFeeds (text ++ "\n;\n") = lineFeeds text + 2 := by
    simp [lineFeeds, String.toList_append, List.count_append]
  have hdown : Position.down (lineFeeds text + 1) ∘ Position.down (lineFeeds ";" + 1)
      = Position.down (lineFeeds (text ++ "\n;\n")) := by
    have hnone : lineFeeds ";" = 0 := by decide
    funext p
    simp only [Function.comp_apply, Position.down, hlines, hnone, Position.mk.injEq, and_true]
    omega
  have hsep : Token.move (Position.down (lineFeeds text + 1)) ⟨.semicolon, ";", .start⟩
      = separator text := by
    simp only [Token.move, Position.down, Position.start, separator, Token.mk.injEq,
      Position.mk.injEq, true_and, and_true]
    omega
  rw [htext, tokens_line _ _ h, tokens_line _ _ hclosed, hsemi, List.map_append, List.map_map,
    List.map_singleton, hsep, below, ← hdown, List.append_assoc]
  rfl

end Source

end Scriptlet
