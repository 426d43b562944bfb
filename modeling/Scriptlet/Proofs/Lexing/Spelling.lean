import Scriptlet.Proofs.Tree.Formed

/-!
# Spelling

The names among the tokens of a source text are words, and only one behind the `@` of a decorator
can be a reserved one.
-/

namespace Scriptlet

/-- Whether the names among the tokens are spelled as names, those behind an `@` as words. -/
inductive Spelled : List Token → Prop where
  | nil : Spelled []
  | plain {t : Token} {l : List Token} : t.kind ≠ .decorator →
    (t.kind = .identifier → IsName t.text) → Spelled l → Spelled (t :: l)
  | decorator {t u : Token} {l : List Token} : t.kind = .decorator → u.kind = .identifier →
    IsWord u.text → Spelled l → Spelled (t :: u :: l)

namespace TokenKind

/-- A word is a name or one of the reserved words. -/
theorem ofWord_ne {kind : TokenKind} (hname : kind ≠ .identifier)
    (hwords : ∀ entry ∈ keywords, entry.2 ≠ kind) (x : String) :
  ofWord x ≠ kind
  := by
  unfold ofWord ofKeyword?
  cases h : keywords.lookup x with
  | none => exact hname.symm
  | some found =>
      have hmem : (x, found) ∈ keywords := by
        obtain ⟨l₁, l₂, heq, -⟩ := List.lookup_eq_some_iff.mp h
        rw [heq]
        simp
      exact hwords _ hmem

/-- No word is a decorator. -/
theorem ofWord_ne_decorator (x : String) :
  ofWord x ≠ .decorator
  := ofWord_ne (by decide) (by decide) x

end TokenKind

namespace Source

/-- What begins a name can go on with one. -/
theorem isNamePart_of_isNameStart {c : Char} (h : isNameStart c = true) :
  isNamePart c = true
  := by
  simp only [isNameStart, Bool.or_eq_true] at h
  simp only [isNamePart, Char.isAlphanum, Bool.or_eq_true]
  rcases h with h | h
  · exact .inl (.inl (.inl h))
  · exact .inl (.inr h)

/-- Whether a kind is that of an operator, a mark or an illegal token. -/
structure Mark (kind : TokenKind) : Prop where
  eof : kind ≠ .eof
  name : kind ≠ .identifier
  string : kind ≠ .string
  decorator : kind ≠ .decorator

/-- A character that is a token of its own is a mark. -/
theorem single_mark (c : Char) :
  Mark (single c)
  := by
  unfold single
  split
  all_goals exact ⟨by decide, by decide, by decide, by decide⟩

/-- Two characters that are one token are a legal mark. -/
theorem double?_mark {c d : Char} {kind : TokenKind} (h : double? c d = some kind) :
  Mark kind ∧ kind ≠ .illegal
  := by
  unfold double? at h
  split at h
  all_goals cases h
  all_goals exact ⟨⟨by decide, by decide, by decide, by decide⟩, by decide⟩

/-- A word or operator is no decorator, and a name only if it is spelled as one. -/
theorem lexeme_spelled (c : Char) (cs : List Char) :
  (lexeme c cs).kind ≠ .decorator
    ∧ ((lexeme c cs).kind = .identifier → IsName (lexeme c cs).text)
  := by
  unfold lexeme
  split
  next hc =>
    constructor
    · exact TokenKind.ofWord_ne_decorator _
    · intro hkind
      refine ⟨⟨c, _, String.toList_ofList, hc, ?_⟩, hkind⟩
      intro d hd
      exact List.all_eq_true.mp List.all_takeWhile d hd
  · split
    · exact ⟨by rintro ⟨⟩, by rintro ⟨⟩⟩
    · split
      · split
        · exact ⟨by rintro ⟨⟩, by rintro ⟨⟩⟩
        · exact ⟨by rintro ⟨⟩, by rintro ⟨⟩⟩
      · split
        next d kind h =>
          rw [Option.bind_eq_some_iff] at h
          obtain ⟨d', -, h⟩ := h
          rw [Option.map_eq_some_iff] at h
          obtain ⟨kind', hdouble, heq⟩ := h
          cases heq
          have hmark := (double?_mark hdouble).1
          exact ⟨hmark.decorator, fun hkind => absurd hkind hmark.name⟩
        next =>
          have hmark := single_mark c
          exact ⟨hmark.decorator, fun hkind => absurd hkind hmark.name⟩

/-- What holds of no tokens, and of the tokens from one on if it does of those behind it, holds of
all that are read: by induction on the characters.  A decorator stands in front of its name, which
is a word, and every other token is a lexeme of its own. -/
theorem scan_induction {P : List Token → Prop} (hnil : P [])
    (hdecorator : ∀ (p p' : Position) (x : String) l, IsWord x → P l →
      P (⟨.decorator, "@", p⟩ :: ⟨.identifier, x, p'⟩ :: l))
    (hlexeme : ∀ (p p' : Position) (c : Char) (cs : List Char), isBlank c = false →
      P (scan p' (lexeme c cs).more cs) →
      P (⟨(lexeme c cs).kind, (lexeme c cs).text, p⟩ :: scan p' (lexeme c cs).more cs))
    (p : Position) (k : Nat) (cs : List Char) :
  P (scan p k cs)
  := by
  induction cs generalizing p k with
  | nil => exact hnil
  | cons c cs ih =>
      cases k with
      | succ k => exact ih _ _
      | zero =>
          simp only [scan]
          split
          · exact ih _ _
          next hblank =>
            split
            · exact ih _ _
            · split
              next hname =>
                apply hdecorator _ _ _ _ _ (ih _ _)
                -- The name starts behind the `@`.
                rcases cs with _ | ⟨d, cs⟩
                · simp at hname
                · have hd : isNameStart d = true := by simpa using hname.2
                  refine ⟨d, cs.takeWhile isNamePart, ?_, hd, ?_⟩
                  · simp [isNamePart_of_isNameStart hd]
                  · intro e he
                    exact List.all_eq_true.mp List.all_takeWhile e he
              next => exact hlexeme _ _ c cs (by simpa using hblank) (ih _ _)

/-- All tokens that are read are spelled as their kind says. -/
theorem scan_spelled (p : Position) (k : Nat) (cs : List Char) :
  Spelled (scan p k cs)
  := by
  apply scan_induction .nil
  · intro p p' x l hx hl
    exact .decorator rfl rfl hx hl
  · intro p p' c cs _ hl
    obtain ⟨hdec, hname⟩ := lexeme_spelled c cs
    exact .plain hdec hname hl

/-- The tokens of a source text are spelled as they have to be. -/
theorem tokens_spelled (text : String) :
  Spelled (tokens text)
  := scan_spelled _ _ _

end Source

end Scriptlet
