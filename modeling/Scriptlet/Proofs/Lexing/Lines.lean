import Scriptlet.Proofs.Lexing.Order
import Scriptlet.Proofs.Lexing.Pieces

/-!
# Texts on lines of their own

The tokens of two texts with a line feed between them are those of the first text and then those of
the second one, further down.  This says exactly that every string of the first text is closed: one
that is not goes on through whatever follows it.
-/

namespace Scriptlet

namespace Position

/-- Moving down and going over characters can be done in either order. -/
theorem down_after (n : Nat) (p : Position) (cs : List Char) :
  (p.after cs).down n = (p.down n).after cs
  := by
  induction cs generalizing p with
  | nil => rfl
  | cons c cs ih => rw [after_cons, after_cons, ih, down_next]

end Position

namespace Source

variable {text other : String} {t : Token}

/-- A string that is never closed is all of the text from its position on. -/
theorem exists_of_unterminated (ht : t ∈ tokens text) (hopen : Unterminated t) :
  ∃ front, text.toList = front ++ t.text.toList ∧ t.position = Position.start.after front
  := by
  obtain ⟨pieces, hchars, htokens, hlaid⟩ := cover_scan [] text.toList
  rw [tokens, ← Position.after_nil .start, ← htokens, List.mem_filterMap] at ht
  obtain ⟨x, hx, htoken⟩ := ht
  obtain ⟨front, behind, rfl⟩ := List.append_of_mem hx
  cases x with
  | blank | comment => cases htoken
  | word u span =>
      obtain rfl := Option.some.inj htoken
      obtain ⟨-, hspells, hposition⟩ := hlaid.sound
      have hkind : u.kind ≠ .string := by
        rw [hopen.1]
        rintro ⟨⟩
      obtain ⟨hbehind, -⟩ := hspells.unclosed hopen
      refine ⟨front.flatMap Piece.chars, ?_, hposition.trans (Position.after_start _).symm⟩
      rw [← hchars, List.flatMap_append, List.flatMap_cons, hbehind, List.append_nil,
        hspells.plain hkind, String.toList_ofList]
      rfl

/-- A string that is never closed is longer in a text that goes on. -/
theorem not_mem_tokens_line (ht : t ∈ tokens text) (hopen : Unterminated t) :
  t ∉ tokens (text ++ "\n" ++ other)
  := by
  intro ht'
  obtain ⟨front, htext, hposition⟩ := exists_of_unterminated ht hopen
  obtain ⟨front', htext', hposition'⟩ := exists_of_unterminated ht' hopen
  have hjoin : (text ++ "\n" ++ other).toList
      = front ++ (t.text.toList ++ '\n' :: other.toList) := by
    simp [String.toList_append, htext]
  have hlength : front.length < front'.length := by
    have := congrArg List.length (htext'.symm.trans hjoin)
    simp only [List.length_append, List.length_cons] at this
    omega
  -- The text that goes on reads `front'` and thus more than `front` before the same position.
  obtain ⟨more, rfl⟩ : front <+: front' :=
    List.prefix_of_prefix_length_le ⟨_, hjoin.symm⟩ ⟨_, htext'.symm⟩ hlength.le
  have hmore : more ≠ [] := by
    rintro rfl
    simp at hlength
  rw [hposition, Position.after_append] at hposition'
  exact (Position.before_after _ hmore).ne hposition'

/-- The token at the end is no string that is never closed. -/
theorem not_unterminated_eof (text : String) :
  ¬ Unterminated (eof text)
  := by
  rintro ⟨⟨⟩, -⟩

/-- The end of two texts on lines of their own is the end of the second one, further down. -/
theorem finish_line (text other : String) :
  finish (text ++ "\n" ++ other) = (finish other).down (lineFeeds text + 1)
  := by
  have hline := after_line_feed text
  unfold finish at hline ⊢
  rw [String.toList_append, Position.after_append, String.toList_append, Position.after_append,
    Position.down_after, ← hline]
  rfl

/-- The tokens of two texts on lines of their own are those of the first one, without its end, and
then those of the second one, as many lines further down as the first one ends and one more, with
the same kinds, texts and columns; unless the first text has a string that is never closed, and only
then. -/
theorem listing_line_iff (text other : String) :
  listing (text ++ "\n" ++ other)
      = tokens text ++ (listing other).map (Token.move (Position.down (lineFeeds text + 1)))
    ↔ ∀ t ∈ listing text, ¬ Unterminated t
  := by
  constructor
  · intro heq t ht hopen
    rcases List.mem_append.mp ht with ht | ht
    · have hmem : t ∈ listing (text ++ "\n" ++ other) := by
        rw [heq]
        exact List.mem_append_left _ ht
      rcases List.mem_append.mp hmem with hmem | hmem
      · exact not_mem_tokens_line ht hopen hmem
      · obtain rfl := List.mem_singleton.mp hmem
        exact not_unterminated_eof _ hopen
    · obtain rfl := List.mem_singleton.mp ht
      exact not_unterminated_eof _ hopen
  · intro hclosed
    have heof : eof (text ++ "\n" ++ other)
        = (eof other).move (Position.down (lineFeeds text + 1)) := by
      rw [eof, finish_line]
      rfl
    rw [listing, tokens_line _ _ fun t ht => hclosed t (List.mem_append_left _ ht), heof, listing,
      List.map_append, List.append_assoc]
    rfl

/-- A string over two lines, a comment up to the line feed, and a name behind an `@`. -/
example :
  listing ("'a\nb' // 'c" ++ "\n" ++ "@let x")
    = [⟨.string, "a\nb", ⟨1, 1⟩⟩, ⟨.decorator, "@", ⟨3, 1⟩⟩, ⟨.identifier, "let", ⟨3, 2⟩⟩,
      ⟨.identifier, "x", ⟨3, 6⟩⟩, ⟨.eof, "", ⟨3, 7⟩⟩]
  := by decide +kernel

end Source

end Scriptlet
