import Mathlib.Data.List.DropRight
import Mathlib.Data.List.TakeWhile
import Scriptlet.Proofs.Lexing.Join
import Scriptlet.Proofs.Lexing.Spelling

/-!
# Pieces of a text

A text is made of blank characters, comments and the spans of its tokens, one piece behind the
other.  A token says what is written in its span, or what a string stands for, and its position is
found by counting the characters in front of it.  A text that is read token by token gives the same
tokens, and then its end again and again.
-/

namespace Scriptlet

/-- The line is one more than the line feeds that have been read, the column one more than the
characters read since the last of them. -/
theorem Position.after_start (before : List Char) :
  Position.start.after before
    = ⟨1 + before.count '\n', 1 + (before.rtakeWhile (· ≠ '\n')).length⟩
  := by
  induction before using List.reverseRecOn with
  | nil => rfl
  | append_singleton cs c ih =>
      rw [after_append, ih, after_cons, after_nil, next, List.rtakeWhile_concat]
      split
      next hc =>
        subst hc
        simp
        omega
      next hc =>
        simp [hc]
        omega

namespace Source

/-! ### Strings -/

/-- Whether `written` stands between two quotes for a string with the given content: each of its
characters is either behind a backslash, or no quote and no backslash. -/
inductive Body (quote : Char) : List Char → List Char → Prop where
  | nil : Body quote [] []
  | plain {c : Char} {written content : List Char} :
    c ≠ quote → c ≠ '\\' → Body quote written content → Body quote (c :: written) (c :: content)
  | escaped {e : Char} {written content : List Char} :
    Body quote written content → Body quote ('\\' :: e :: written) (unescape e :: content)

variable {quote : Char}

/-- What can stand between two quotes is read as the string that it is written for. -/
theorem Body.stringBody_eq (hquote : '\\' ≠ quote) {written content : List Char}
    (h : Body quote written content) (rest : List Char) :
  stringBody quote (written ++ quote :: rest) = some (content, written.length + 1)
  := by
  induction h with
  | nil => simp
  | plain hc hb _ ih => simp [stringBody_plain hc hb, ih]
  | escaped _ ih => simp [stringBody_escape hquote, ih]

/-- A string that is read is written between its quotes. -/
theorem exists_body {cs content : List Char} {n : Nat}
    (h : stringBody quote cs = some (content, n)) :
  ∃ written rest, cs = written ++ quote :: rest ∧ n = written.length + 1
    ∧ Body quote written content
  := by
  induction cs using stringBody.induct quote generalizing content n with
  | case1 => simp [stringBody] at h
  | case2 cs =>
      simp only [stringBody_quote, Option.some.injEq, Prod.mk.injEq] at h
      obtain ⟨rfl, rfl⟩ := h
      exact ⟨[], cs, rfl, rfl, .nil⟩
  | case3 hquote => simp [stringBody, hquote] at h
  | case4 e rest hquote ih =>
      rw [stringBody_escape hquote, Option.map_eq_some_iff] at h
      obtain ⟨⟨content', n'⟩, hbody, heq⟩ := h
      obtain ⟨rfl, rfl⟩ := Prod.mk.inj heq
      obtain ⟨written, behind, rfl, rfl, hwritten⟩ := ih hbody
      exact ⟨'\\' :: e :: written, behind, rfl, rfl, .escaped hwritten⟩
  | case5 c cs hquote hc ih =>
      rw [stringBody_plain hquote hc, Option.map_eq_some_iff] at h
      obtain ⟨⟨content', n'⟩, hbody, heq⟩ := h
      obtain ⟨rfl, rfl⟩ := Prod.mk.inj heq
      obtain ⟨written, behind, rfl, rfl, hwritten⟩ := ih hbody
      exact ⟨c :: written, behind, rfl, rfl, .plain hquote hc hwritten⟩

/-! ### Spans -/

/-- Whether a token is what `span` says where `behind` follows it. -/
structure Spells (t : Token) (span behind : List Char) : Prop where
  /-- Something is written. -/
  ne_nil : span ≠ []
  /-- A string is written between quotes. -/
  string : t.kind = .string → ∃ quote written content,
    (quote = '"' ∨ quote = '\'') ∧ span = quote :: (written ++ [quote])
    ∧ Body quote written content ∧ t.text = String.ofList content
  /-- Any other token says what is written. -/
  plain : t.kind ≠ .string → t.text = String.ofList span
  /-- A string that is never closed goes on to the end of the text. -/
  unclosed : Unterminated t → behind = [] ∧ ∃ quote rest, span = quote :: rest
    ∧ ∀ written content tail, Body quote written content → rest ≠ written ++ quote :: tail

/-- A token that is neither a string nor starts with a quote says what is written. -/
theorem Spells.of_ne {t : Token} {c : Char} {span behind : List Char} (hkind : t.kind ≠ .string)
    (htext : t.text = String.ofList (c :: span)) (hquote : ¬ (c = '"' ∨ c = '\'')) :
  Spells t (c :: span) behind
  where
  ne_nil := List.cons_ne_nil _ _
  string h := absurd h hkind
  plain _ := htext
  unclosed h := by
    have hhead := h.2
    rw [htext] at hhead
    simp at hhead
    exact absurd hhead hquote

/-- No name begins with a quote. -/
theorem not_quote_of_isNameStart {c : Char} (h : isNameStart c = true) :
  ¬ (c = '"' ∨ c = '\'')
  := by
  rintro (rfl | rfl)
  all_goals revert h
  all_goals decide

/-- As many characters as are taken while something holds are those that are taken. -/
theorem take_takeWhile (p : Char → Bool) (cs : List Char) :
  cs.take (cs.takeWhile p).length = cs.takeWhile p
  := (List.prefix_iff_eq_take.mp (List.takeWhile_prefix p)).symm

/-- What is left behind as many characters as are taken is what is dropped. -/
theorem drop_takeWhile (p : Char → Bool) (cs : List Char) :
  cs.drop (cs.takeWhile p).length = cs.dropWhile p
  := by
  have hwhole : cs.takeWhile p ++ cs.dropWhile p = cs := List.takeWhile_append_dropWhile
  calc cs.drop (cs.takeWhile p).length
    _ = (cs.takeWhile p ++ cs.dropWhile p).drop (cs.takeWhile p).length := by rw [hwhole]
    _ = cs.dropWhile p := List.drop_left

/-- A string says what is written between its quotes. -/
theorem spells_string {c : Char} {cs content : List Char} {n : Nat} (hquote : c = '"' ∨ c = '\'')
    (hbody : stringBody c cs = some (content, n)) (p : Position) :
  Spells ⟨.string, String.ofList content, p⟩ (c :: cs.take n) (cs.drop n)
  := by
  obtain ⟨written, rest, rfl, rfl, hwritten⟩ := exists_body hbody
  have htake : (written ++ c :: rest).take (written.length + 1) = written ++ [c] := by
    rw [List.take_length_add_append]
    rfl
  refine ⟨List.cons_ne_nil _ _, fun _ => ?_, fun h => absurd rfl h, ?_⟩
  · exact ⟨c, written, content, hquote, congrArg (c :: ·) htake, hwritten, rfl⟩
  · rintro ⟨⟨⟩, -⟩

/-- A quote that is never closed spans the rest of the text. -/
theorem spells_unclosed {c : Char} {cs : List Char} (hquote : c = '"' ∨ c = '\'')
    (hbody : stringBody c cs = none) (p : Position) :
  Spells ⟨.illegal, String.ofList (c :: cs), p⟩ (c :: cs.take cs.length) (cs.drop cs.length)
  := by
  have hbackslash : '\\' ≠ c := by
    rcases hquote with rfl | rfl
    all_goals decide
  rw [List.take_length, List.drop_length]
  refine ⟨List.cons_ne_nil _ _, by rintro ⟨⟩, fun _ => rfl, fun _ => ⟨rfl, c, cs, rfl, ?_⟩⟩
  rintro written content tail hwritten rfl
  rw [hwritten.stringBody_eq hbackslash] at hbody
  cases hbody

/-- A word or operator is what it is written as. -/
theorem spells_lexeme (c : Char) (cs : List Char) (p : Position) :
  (lexeme c cs).kind ≠ .eof
  ∧ Spells ⟨(lexeme c cs).kind, (lexeme c cs).text, p⟩ (c :: cs.take (lexeme c cs).more)
    (cs.drop (lexeme c cs).more)
  := by
  unfold lexeme
  split
  next hname =>
    have hkind (x : String) : TokenKind.ofWord x ≠ .eof ∧ TokenKind.ofWord x ≠ .string :=
      ⟨TokenKind.ofWord_ne (by decide) (by decide) x,
        TokenKind.ofWord_ne (by decide) (by decide) x⟩
    refine ⟨(hkind _).1, .of_ne (hkind _).2 ?_ (not_quote_of_isNameStart hname)⟩
    dsimp only
    rw [take_takeWhile]
  next =>
    split
    next hdigit =>
      refine ⟨by rintro ⟨⟩, .of_ne (by rintro ⟨⟩) ?_ ?_⟩
      · dsimp only
        rw [take_takeWhile]
      · rintro (rfl | rfl)
        all_goals revert hdigit
        all_goals decide
    next =>
      split
      next hquote =>
        cases hbody : stringBody c cs with
        | some found => exact ⟨by rintro ⟨⟩, spells_string hquote hbody p⟩
        | none => exact ⟨by rintro ⟨⟩, spells_unclosed hquote hbody p⟩
      next hquote =>
        split
        next d kind h =>
          rw [Option.bind_eq_some_iff] at h
          obtain ⟨d', hd, h⟩ := h
          rw [Option.map_eq_some_iff] at h
          obtain ⟨kind', hdouble, heq⟩ := h
          cases heq
          have hmark := (double?_mark hdouble).1
          refine ⟨hmark.eof, .of_ne hmark.string ?_ hquote⟩
          cases cs with
          | nil => cases hd
          | cons d'' cs =>
              cases hd
              rfl
        next =>
          have hmark := single_mark c
          exact ⟨hmark.eof, .of_ne hmark.string rfl hquote⟩

/-- A name is what it is written as. -/
theorem spells_name {cs : List Char} (h : cs.head?.any isNameStart = true) (p : Position)
    (behind : List Char) :
  Spells ⟨.identifier, String.ofList (cs.takeWhile isNamePart), p⟩ (cs.takeWhile isNamePart) behind
  := by
  rcases cs with _ | ⟨d, cs⟩
  · simp at h
  · have hstart : isNameStart d = true := by simpa using h
    rw [List.takeWhile_cons_of_pos (isNamePart_of_isNameStart hstart)]
    exact .of_ne (by rintro ⟨⟩) rfl (not_quote_of_isNameStart hstart)

/-! ### Pieces -/

/-- A part of a text. -/
inductive Piece where
  | blank (c : Char)
  /-- A comment, `text` behind its two slashes. -/
  | comment (text : List Char)
  /-- The span of a token. -/
  | word (t : Token) (span : List Char)

namespace Piece

/-- The characters of a piece. -/
def chars : Piece → List Char
  | blank c => [c]
  | comment text => '/' :: '/' :: text
  | word _ span => span

/-- The token of a piece, if there is one. -/
def token? : Piece → Option Token
  | blank _ | comment _ => none
  | word t _ => some t

/-- Whether a piece is read as it has to be between the characters `before` and `behind`: a comment
goes up to the end of its line, and a token has the position of its first character. -/
def Sound (before behind : List Char) : Piece → Prop
  | blank c => isBlank c = true
  | comment text => '\n' ∉ text ∧ (behind = [] ∨ behind.head? = some '\n')
  | word t span =>
    t.kind ≠ .eof ∧ Spells t span behind
    ∧ t.position = ⟨1 + before.count '\n', 1 + (before.rtakeWhile (· ≠ '\n')).length⟩

/-- Whether pieces are read as they have to be behind the characters `before`. -/
def Laid (before : List Char) : List Piece → Prop
  | [] => True
  | x :: rest => x.Sound before (rest.flatMap chars) ∧ Laid (before ++ x.chars) rest

/-- A comment goes up to the end of its line. -/
theorem sound_comment (before cs : List Char) :
  (comment (cs.takeWhile (· ≠ '\n'))).Sound before (cs.dropWhile (· ≠ '\n'))
  := by
  constructor
  · intro h
    have hne := List.mem_takeWhile_imp h
    simp at hne
  · cases hrest : cs.dropWhile (· ≠ '\n') with
    | nil => exact .inl rfl
    | cons d rest =>
        have hd := List.head?_dropWhile_not (· ≠ '\n') cs
        rw [hrest] at hd
        right
        simpa using hd

/-- Each of the pieces is read as it has to be between those around it. -/
theorem Laid.sound {before : List Char} {front behind : List Piece} {x : Piece}
    (h : Laid before (front ++ x :: behind)) :
  x.Sound (before ++ front.flatMap chars) (behind.flatMap chars)
  := by
  induction front generalizing before with
  | nil => simpa using h.1
  | cons y front ih =>
      rw [List.flatMap_cons, ← List.append_assoc]
      apply ih
      exact h.2

/-- Whether `cs` is made of pieces that are read as they have to be behind `before`, with the given
tokens among them. -/
def Cover (before cs : List Char) (tokens : List Token) : Prop :=
  ∃ pieces : List Piece, pieces.flatMap chars = cs ∧ pieces.filterMap token? = tokens
    ∧ Laid before pieces

/-- One more piece in front adds its characters and its token. -/
theorem Cover.cons {before rest : List Char} {tokens : List Token} (x : Piece)
    (hx : x.Sound before rest) (h : Cover (before ++ x.chars) rest tokens) :
  Cover before (x.chars ++ rest) (x.token?.toList ++ tokens)
  := by
  obtain ⟨pieces, rfl, rfl, hlaid⟩ := h
  refine ⟨x :: pieces, List.flatMap_cons, ?_, hx, hlaid⟩
  rw [List.filterMap_cons]
  cases x.token?
  all_goals rfl

end Piece

open Piece

/-- The characters that are still to be passed over are passed over. -/
theorem scan_eq_scan_drop (p : Position) {k : Nat} {cs : List Char} (hk : k ≤ cs.length) :
  scan p k cs = scan (p.after (cs.take k)) 0 (cs.drop k)
  := by
  rw [← scan_skip, List.length_take_of_le hk, List.take_append_drop]

/-- Behind a comment the text is read on. -/
theorem cover_comment {before cs : List Char} {tokens : List Token}
    (h : Cover (before ++ '/' :: '/' :: cs.takeWhile (· ≠ '\n')) (cs.dropWhile (· ≠ '\n')) tokens) :
  Cover before ('/' :: '/' :: cs) tokens
  := by
  have hcover := Cover.cons (.comment (cs.takeWhile (· ≠ '\n'))) (sound_comment before cs) h
  rw [chars, List.cons_append, List.cons_append, List.takeWhile_append_dropWhile] at hcover
  exact hcover

/-- An `@` and the word behind it are two pieces. -/
theorem cover_decorator {before cs : List Char} {tokens : List Token}
    (hstart : cs.head?.any isNameStart = true)
    (h : Cover (before ++ '@' :: cs.takeWhile isNamePart) (cs.dropWhile isNamePart) tokens) :
  Cover before ('@' :: cs)
    (⟨.decorator, "@", Position.start.after before⟩
      :: ⟨.identifier, String.ofList (cs.takeWhile isNamePart),
        (Position.start.after before).next '@'⟩
      :: tokens)
  := by
  have hnext := Position.after_start (before ++ ['@'])
  rw [Position.after_append] at hnext
  rw [List.append_cons] at h
  have hname := Cover.cons (.word ⟨.identifier, _, _⟩ _)
    ⟨by rintro ⟨⟩, spells_name hstart _ _, hnext⟩ h
  rw [chars, List.takeWhile_append_dropWhile] at hname
  exact Cover.cons (.word ⟨.decorator, "@", _⟩ ['@'])
    ⟨by rintro ⟨⟩, .of_ne (by rintro ⟨⟩) rfl (by decide), Position.after_start before⟩ hname

/-- A lexeme is one piece, and behind it the text is read on. -/
theorem cover_lexeme {before : List Char} {c : Char} {cs : List Char} {tokens : List Token}
    (h : Cover (before ++ c :: cs.take (lexeme c cs).more) (cs.drop (lexeme c cs).more) tokens) :
  Cover before (c :: cs)
    (⟨(lexeme c cs).kind, (lexeme c cs).text, Position.start.after before⟩ :: tokens)
  := by
  obtain ⟨heof, hspells⟩ := spells_lexeme c cs (Position.start.after before)
  have hcover := Cover.cons (.word _ _) ⟨heof, hspells, Position.after_start before⟩ h
  rw [chars, List.cons_append, List.take_append_drop] at hcover
  exact hcover

/-- What follows the position of `before` is made of pieces.  The induction is on a bound to the
number of characters, of which each piece takes some. -/
theorem cover_scan (before cs : List Char) :
  Cover before cs (scan (Position.start.after before) 0 cs)
  := by
  obtain ⟨n, hn⟩ : ∃ n, cs.length ≤ n := ⟨_, Nat.le_refl _⟩
  induction n generalizing before cs with
  | zero =>
      obtain rfl : cs = [] := List.eq_nil_of_length_eq_zero (Nat.le_zero.mp hn)
      exact ⟨[], rfl, rfl, trivial⟩
  | succ n ih =>
      rcases cs with _ | ⟨c, cs⟩
      · exact ⟨[], rfl, rfl, trivial⟩
      · have hlength : cs.length ≤ n := Nat.le_of_succ_le_succ hn
        -- What is left behind a span of `c` and the next `k` characters.
        have hrest (k : Nat) (hk : k ≤ cs.length) :
          Cover (before ++ c :: cs.take k) (cs.drop k)
            (scan ((Position.start.after before).next c) k cs)
          := by
          rw [scan_eq_scan_drop _ hk, ← Position.after_cons, ← Position.after_append]
          apply ih
          rw [List.length_drop]
          omega
        unfold scan
        dsimp only
        split
        next hblank => exact Cover.cons (.blank c) hblank (hrest 0 (Nat.zero_le _))
        next =>
          split
          next hslash =>
            obtain ⟨rfl, hhead⟩ := hslash
            obtain ⟨cs, rfl⟩ := List.head?_eq_some_iff.mp hhead
            have hline := hrest _ (List.takeWhile_prefix (· ≠ '\n')).length_le
            rw [take_takeWhile, drop_takeWhile, List.takeWhile_cons_of_pos (by decide)] at hline
            exact cover_comment hline
          next =>
            split
            next hat =>
              obtain ⟨rfl, hstart⟩ := hat
              have hname := hrest _ (List.takeWhile_prefix isNamePart).length_le
              rw [take_takeWhile, drop_takeWhile] at hname
              exact cover_decorator hstart hname
            next => exact cover_lexeme (hrest _ (lexeme_le c cs))

/-! ### Tokens one by one -/

namespace Scanner

/-- The tokens that are left. -/
def left (s : Scanner) : List Token :=
  s.pending.toList ++ scan s.position 0 s.rest

/-- The position of the end of the text. -/
def finish (s : Scanner) : Position :=
  s.position.after s.rest

/-- Whether the first of the tokens is found, or the end of the text at `finish` if there are none,
and the others are left. -/
structure Finds (tokens : List Token) (finish : Position) (found : Token × Scanner) : Prop where
  token : found.1 = tokens.headD ⟨.eof, "", finish⟩
  left : found.2.left = tokens.tail
  finish : found.2.finish = finish

/-- Reading one token finds the first of the tokens and leaves the others. -/
theorem finds_read (p : Position) (k : Nat) (cs : List Char) :
  Finds (scan p k cs) (p.after cs) (read p k cs)
  := by
  induction cs generalizing p k with
  | nil => exact ⟨rfl, rfl, rfl⟩
  | cons c cs ih =>
      -- What is left behind `k` more characters is read further on.
      have hrest (k : Nat) (hk : k ≤ cs.length) :
        scan ((p.next c).after (cs.take k)) 0 (cs.drop k) = scan (p.next c) k cs
        ∧ ((p.next c).after (cs.take k)).after (cs.drop k) = p.after (c :: cs)
        := by
        refine ⟨(scan_eq_scan_drop _ hk).symm, ?_⟩
        rw [← Position.after_append, List.take_append_drop, Position.after_cons]
      cases k with
      | succ k => exact ih (p.next c) k
      | zero =>
          unfold scan read
          dsimp only
          split
          · exact ih (p.next c) 0
          · split
            · exact ih (p.next c) _
            · split
              · obtain ⟨hleft, hfinish⟩ := hrest _ (List.takeWhile_prefix isNamePart).length_le
                rw [take_takeWhile] at hleft hfinish
                exact ⟨rfl, congrArg (_ :: ·) hleft, hfinish⟩
              · obtain ⟨hleft, hfinish⟩ := hrest _ (lexeme_le c cs)
                exact ⟨rfl, hleft, hfinish⟩

/-- A scanner finds the first of the tokens that are left. -/
theorem finds_next (s : Scanner) :
  Finds s.left s.finish s.next
  := by
  obtain ⟨rest, p, _ | t⟩ := s
  · exact finds_read p 0 rest
  · exact ⟨rfl, rfl, rfl⟩

/-- The next tokens are those that are left, and then the end of the text again and again. -/
theorem take_eq (s : Scanner) (n : Nat) :
  s.take n = s.left.take n ++ List.replicate (n - s.left.length) ⟨.eof, "", s.finish⟩
  := by
  induction n generalizing s with
  | zero => simp [take]
  | succ n ih =>
      have hnext := s.finds_next
      simp only [take]
      rw [ih, hnext.token, hnext.left, hnext.finish]
      cases s.left with
      | nil => simp [List.replicate_succ]
      | cons t ts => simp

end Scanner

/-- A text is made of pieces one behind the other: blank characters, comments up to the end of their
line, and the spans of its tokens.  No span is empty, each token has the position of the first
character of its span and says what is written there: a string what stands between its quotes, with
backslashes resolved, any other token all of it.  The end of the text is listed behind the tokens,
at its own position, and a text that is read token by token gives the tokens that are listed and
then its end again and again. -/
theorem exists_pieces_listing (text : String) :
  (∃ pieces : List Piece,
    pieces.flatMap Piece.chars = text.toList
    ∧ listing text = pieces.filterMap Piece.token? ++ [eof text]
    ∧ ∀ front x behind, pieces = front ++ x :: behind →
      x.Sound (front.flatMap Piece.chars) (behind.flatMap Piece.chars))
  ∧ (eof text).position
    = ⟨1 + text.toList.count '\n', 1 + (text.toList.rtakeWhile (· ≠ '\n')).length⟩
  ∧ ∀ n, firstTokens text n
    = (listing text).take n ++ List.replicate (n - (listing text).length) (eof text)
  := by
  refine ⟨?_, Position.after_start text.toList, fun n => ?_⟩
  · obtain ⟨pieces, hchars, htokens, hlaid⟩ := cover_scan [] text.toList
    refine ⟨pieces, hchars, by rw [htokens]; rfl, ?_⟩
    rintro front x behind rfl
    exact hlaid.sound
  · have hleft : (Scanner.ofText text).left = tokens text := rfl
    have hfinish : (Scanner.ofText text).finish = finish text := rfl
    rw [firstTokens, Scanner.take_eq, hleft, hfinish, listing, List.take_append,
      List.length_append, List.length_singleton, List.append_assoc, ← Nat.sub_sub]
    congr 1
    cases n - (tokens text).length with
    | zero => rfl
    | succ k => simp [List.replicate_succ, eof]

end Source

end Scriptlet
