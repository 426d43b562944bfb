import Scriptlet.Proofs.Parsing.Spans
import Scriptlet.Proofs.Tree.Map

/-!
# Two runs along the same tokens

A rule is run on some tokens, and again on tokens that have other positions and that go on where
the first ones end.  `Change` says how the tokens differ, `Follows` that the second run does what
the first one does: it makes the same tree with the other positions, or it fails too.  Where the
first run has read all its tokens, this is said only if what follows them cannot be read on with.
-/

namespace Scriptlet

namespace Parse

/-- How the tokens of two runs differ. -/
structure Change where
  /-- What becomes of a position. -/
  move : Position → Position
  /-- The tokens that may stand where those of the first run end. -/
  ends : List Token → Prop
  /-- They may do so without a semicolon in front. -/
  drop : ∀ m, ends m → ends (dropSemicolon m)
  /-- The end of the source of the first run. -/
  finish : Position
  /-- The end of the source of the second run. -/
  finish' : Position

/-- Whether a token of a kind can go on with what is complete without it. -/
def continues (kind : TokenKind) : Bool :=
  (BinaryOp.ofToken? kind).isSome
    || [.leftParen, .leftBracket, .assign, .comma, .elseWord].contains kind

/-- The kinds at which parsing can go on after an error, and that of the end. -/
def firm : List TokenKind :=
  [.eof, .semicolon, .letWord, .returnWord, .useWord, .decorator]

namespace Change

variable (c : Change)

/-- Whether nothing stands where the tokens of the first run end, or a semicolon does. -/
def Plain : Prop :=
  ∀ m, c.ends m → m = [] ∨ kindOf m = .semicolon

/-- Whether parsing can go on after an error where the tokens of the first run end. -/
def Firm : Prop :=
  ∀ m, c.ends m → kindOf m ∈ firm

/-- Whether nothing complete is gone on with where the tokens of the first run end. -/
def Quiet : Prop :=
  ∀ m, c.ends m → continues (kindOf m) = false

variable {c}

/-- Where nothing or a semicolon stands, the next token is the end or a semicolon. -/
theorem Plain.kindOf {m : List Token} (h : c.Plain) (hm : c.ends m) :
  kindOf m = .eof ∨ kindOf m = .semicolon
  := by
  rcases h m hm with rfl | hk
  · exact .inl rfl
  · exact .inr hk

/-- Parsing can go on after an error at the end and at a semicolon. -/
theorem Plain.firm (h : c.Plain) :
  c.Firm
  := by
  intro m hm
  rcases h.kindOf hm with hk | hk
  · simp [hk, Parse.firm]
  · simp [hk, Parse.firm]

/-- Where parsing can go on after an error, nothing complete is gone on with. -/
theorem Firm.quiet (h : c.Firm) :
  c.Quiet
  := by
  intro m hm
  have hk := h m hm
  simp only [Parse.firm, List.mem_cons, List.not_mem_nil, or_false] at hk
  rcases hk with hk | hk | hk | hk | hk | hk
  all_goals
    rw [hk]
    rfl

/-- Nothing complete is gone on with at the end or at a semicolon. -/
theorem Plain.quiet (h : c.Plain) :
  c.Quiet
  := h.firm.quiet

end Change

/-- The tokens `l` of the first run correspond to the tokens `m` of the second run. -/
inductive Along (c : Change) : List Token → List Token → Prop where
  | ends {m : List Token} : c.ends m → Along c [] m
  | cons (t : Token) {l m : List Token} : Along c l m → Along c (t :: l) (t.move c.move :: m)

section

variable {c : Change} {l m : List Token}

/-- No tokens correspond to those that may stand where the first run ends. -/
@[simp] theorem along_nil :
  Along c [] m ↔ c.ends m
  := by
  constructor
  · rintro ⟨h⟩
    exact h
  · exact .ends

/-- A first token corresponds to itself, moved. -/
@[simp] theorem along_cons {t u : Token} :
  Along c (t :: l) (u :: m) ↔ u = t.move c.move ∧ Along c l m
  := by
  constructor
  · rintro ⟨⟩
    exact ⟨rfl, ‹_›⟩
  · rintro ⟨rfl, h⟩
    exact .cons t h

/-- Tokens that correspond do so without a semicolon in front. -/
theorem Along.dropSemicolon (h : Along c l m) :
  Along c (dropSemicolon l) (dropSemicolon m)
  := by
  cases h with
  | ends hm => exact .ends (c.drop _ hm)
  | cons t h =>
      unfold Parse.dropSemicolon
      by_cases hk : t.kind = .semicolon
      · simpa [hk] using h
      · simpa [hk] using h

end

/-- The second run does what the first one does.  What it makes is what the first one makes, with
`g` applied to it.  If the first run has read all its tokens, then this is said of a success only
if nothing can be gone on with there or the tokens `start` do not end in an open declaration, and
of a failure only if parsing can go on there. -/
def Follows {α : Type} (c : Change) (start : List Token) (g : α → α) (p q : Parse α)
    (l m : List Token) : Prop :=
  match p l with
  | .ok a rest => rest ≠ [] ∨ c.Quiet ∨ ¬ Open c.finish start →
      ∃ rest', q m = .ok (g a) rest' ∧ Along c rest rest'
  | .error _ rest => rest ≠ [] ∨ c.Firm →
      ∃ e rest', q m = .error e rest' ∧ Along c rest rest'

section

variable {α β : Type} {c : Change} {start l m : List Token} {g : α → α}

/-- Where the first run has lost its tokens, nothing is said unless something is known there. -/
theorem follows_lost {p q : Parse α} (hq : ¬ c.Quiet) (ho : Open c.finish start)
    (h : Ensures p [] (fun _ rest => rest = []) (· = [])) :
  Follows c start g p q [] m
  := by
  unfold Ensures at h
  unfold Follows
  cases hp : p [] with
  | ok a rest =>
      rw [hp] at h
      rintro (hrest | hquiet | hopen)
      · contradiction
      · contradiction
      · contradiction
  | error e rest =>
      rw [hp] at h
      rintro (hrest | hfirm)
      · contradiction
      · exact absurd hfirm.quiet hq

/-- Two runs that make something at once follow each other. -/
theorem follows_pure {a b : α} (h : Along c l m) (hb : b = g a) :
  Follows c start g (pure a) (pure b) l m
  := by
  intro _
  exact ⟨m, by rw [hb]; rfl, h⟩

/-- Two runs that fail at once follow each other, whatever their errors say. -/
theorem follows_throw {e e' : SyntaxError} (h : Along c l m) :
  Follows c start g (throw e) (throw e') l m
  := by
  intro _
  exact ⟨e', m, rfl, h⟩

/-- One step after the other. -/
theorem Follows.bind {h : β → β} {x y : Parse β} {f f' : β → Parse α}
    (hx : Follows c start h x y l m)
    (lost : ∀ a, Ensures (f a) [] (fun _ rest => rest = []) (· = []))
    (hf : ∀ a l' m', x l = .ok a l' → Along c l' m' →
      (l' ≠ [] ∨ c.Quiet ∨ ¬ Open c.finish start) → Follows c start g (f a) (f' (h a)) l' m') :
  Follows c start g (x >>= f) (y >>= f') l m
  := by
  unfold Follows at hx
  cases hxl : x l with
  | ok a l' =>
      rw [hxl] at hx
      have hbind : (x >>= f) l = f a l' := bind_ok hxl
      by_cases hl' : l' ≠ [] ∨ c.Quiet ∨ ¬ Open c.finish start
      · obtain ⟨m', hym, halong⟩ := hx hl'
        have hbind' : (y >>= f') m = f' (h a) m' := bind_ok hym
        have := hf a l' m' hxl halong hl'
        unfold Follows at this ⊢
        rwa [hbind, hbind']
      · simp only [not_or, not_not] at hl'
        obtain ⟨rfl, hquiet, hopen⟩ := hl'
        have := follows_lost (g := g) (q := y >>= f') (m := m) hquiet hopen (lost a)
        unfold Follows at this ⊢
        rwa [hbind]
  | error e l' =>
      rw [hxl] at hx
      have hbind : (x >>= f) l = .error e l' := bind_error hxl
      unfold Follows
      rw [hbind]
      intro hl'
      obtain ⟨e', m', hym, halong⟩ := hx hl'
      exact ⟨e', m', bind_error hym, halong⟩

/-- A look at the kind of the first token. -/
theorem follows_kind {f f' : TokenKind → Parse α} :
  Follows c start g (kind >>= f) (kind >>= f') l m
    ↔ Follows c start g (f (kindOf l)) (f' (kindOf m)) l m
  := by
  rcases l with _ | ⟨t, l⟩ <;> rcases m with _ | ⟨u, m⟩ <;> rfl

/-- A look at the kind of the second token. -/
theorem follows_secondKind {f f' : TokenKind → Parse α} :
  Follows c start g (secondKind >>= f) (secondKind >>= f') l m
    ↔ Follows c start g (f (kindOf l.tail)) (f' (kindOf m.tail)) l m
  := by
  rcases l with _ | ⟨t, _ | ⟨t', l⟩⟩ <;> rcases m with _ | ⟨u, _ | ⟨u', m⟩⟩ <;> rfl

/-- A look at where the first token stands. -/
theorem follows_here {finish finish' : Position} {f f' : Position → Parse α} :
  Follows c start g (here finish >>= f) (here finish' >>= f') l m
    ↔ Follows c start g (f (hereOf finish l)) (f' (hereOf finish' m)) l m
  := by
  rcases l with _ | ⟨t, l⟩ <;> rcases m with _ | ⟨u, m⟩ <;> rfl

/-- A look at the text of the first token. -/
theorem follows_word {f f' : String → Parse α} :
  Follows c start g (word >>= f) (word >>= f') l m
    ↔ Follows c start g (f (wordOf l)) (f' (wordOf m)) l m
  := by
  rcases l with _ | ⟨t, l⟩ <;> rcases m with _ | ⟨u, m⟩ <;> rfl

/-- A step over the first token. -/
theorem follows_advance {f f' : Unit → Parse α} :
  Follows c start g (advance >>= f) (advance >>= f') l m
    ↔ Follows c start g (f ()) (f' ()) l.tail m.tail
  := Iff.rfl

/-- Both runs fail. -/
theorem follows_of_error {p q : Parse α} (h : Along c l m)
    (hp : Ensures p l (fun _ _ => False) (· = l))
    (hq : l ≠ [] ∨ c.Firm → Ensures q m (fun _ _ => False) (· = m)) :
  Follows c start g p q l m
  := by
  obtain ⟨e, rest, hpl, rfl⟩ := hp.error
  unfold Follows
  rw [hpl]
  intro hrest
  obtain ⟨e', rest', hqm, rfl⟩ := (hq hrest).error
  exact ⟨e', rest', hqm, h⟩

/-- Two runs that report an error follow each other, wherever they report it. -/
theorem follows_fail {finish finish' : Position} {flaw flaw' : SyntaxFlaw} (h : Along c l m) :
  Follows c start g (fail finish flaw) (fail finish' flaw') l m
  := by
  unfold fail
  rw [follows_here]
  exact follows_throw h

end

end Parse

end Scriptlet
