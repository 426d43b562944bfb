import Mathlib.Data.Nat.Digits.Defs
import Scriptlet.Fault

/-!
# Colours of reports

A report in colours differs from the plain one by escape sequences only: deleting each of them
from the coloured report gives the plain one.  A report is a row of pieces, each in a colour or
in none, and a palette says which escape sequences stand around a piece of a colour.
-/

namespace Scriptlet

/-- The character that an escape sequence starts with. -/
def escapeChar : Char := '\x1b'

/-- What follows the escape sequence that the characters start with, if they start with one: a
sequence goes from the escape character and a bracket to the first `m`. -/
def afterSequence? : List Char → Option (List Char)
  | '\x1b' :: '[' :: cs => if 'm' ∈ cs then some (cs.dropWhile (· ≠ 'm')).tail else none
  | _ => none

/-- A sequence that is deleted takes some characters with it, so deleting ends. -/
theorem length_afterSequence? {cs rest : List Char} (h : afterSequence? cs = some rest) :
  rest.length < cs.length
  := by
  revert h
  fun_cases afterSequence? cs with
  | case1 ds hm =>
    rintro ⟨⟩
    have := (ds.dropWhile_suffix fun c => decide (c ≠ 'm')).length_le
    simp only [List.length_tail, List.length_cons]
    omega
  | case2 ds hm => rintro ⟨⟩
  | case3 => rintro ⟨⟩

/-- What is left of the characters once every escape sequence is deleted. -/
def withoutSequences : List Char → List Char
  | [] => []
  | c :: cs =>
    match _h : afterSequence? (c :: cs) with
    | some rest => withoutSequences rest
    | none => c :: withoutSequences cs
termination_by cs => cs.length
decreasing_by
  · exact length_afterSequence? _h
  · exact Nat.lt_succ_self cs.length

/-- A text without its escape sequences. -/
def uncolored (s : String) : String :=
  .ofList (withoutSequences s.toList)

/-- Where a sequence starts, it is deleted. -/
theorem withoutSequences_of_some {cs rest : List Char} (h : afterSequence? cs = some rest) :
  withoutSequences cs = withoutSequences rest
  := by
  cases cs with
  | nil => cases h
  | cons c cs =>
    rw [withoutSequences]
    split
    case h_1 heq => rw [Option.some.inj (h.symm.trans heq)]
    case h_2 heq => cases h.symm.trans heq

/-- Where no sequence starts, a character is kept. -/
theorem withoutSequences_of_none {c : Char} {cs : List Char} (h : afterSequence? (c :: cs) = none) :
  withoutSequences (c :: cs) = c :: withoutSequences cs
  := by
  rw [withoutSequences]
  split
  case h_1 heq => cases h.symm.trans heq
  case h_2 => rfl

theorem withoutSequences_nil :
  withoutSequences [] = []
  := by
  rw [withoutSequences]

/-- From the escape character and the bracket up to the first `m` there is one sequence. -/
theorem afterSequence?_append {body : List Char} (hbody : 'm' ∉ body) (rest : List Char) :
  afterSequence? ('\x1b' :: '[' :: (body ++ 'm' :: rest)) = some rest
  := by
  have hall : ∀ c ∈ body, decide (c ≠ 'm') = true := fun c hc =>
    decide_eq_true fun hm => hbody (hm ▸ hc)
  rw [afterSequence?, if_pos (by simp), List.dropWhile_append_of_pos hall,
    List.dropWhile_cons_of_neg (by simp), List.tail_cons]

/-- No sequence starts with another character. -/
theorem afterSequence?_of_ne {c : Char} (hc : c ≠ escapeChar) (cs : List Char) :
  afterSequence? (c :: cs) = none
  := by
  rw [afterSequence?]
  rintro ds ⟨⟩
  exact absurd rfl hc

/-- What holds no escape character stays as it is. -/
theorem withoutSequences_append {cs : List Char} (hcs : escapeChar ∉ cs) (ds : List Char) :
  withoutSequences (cs ++ ds) = cs ++ withoutSequences ds
  := by
  induction cs with
  | nil => rfl
  | cons c cs ih =>
    obtain ⟨hc, hcs⟩ := not_or.mp (List.mem_cons.not.mp hcs)
    rw [List.cons_append, withoutSequences_of_none (afterSequence?_of_ne (Ne.symm hc) _), ih hcs,
      List.cons_append]

/-- Whether the characters are a row of escape sequences. -/
inductive Sequences : List Char → Prop where
  | nil : Sequences []
  | cons {body rest : List Char} (hbody : 'm' ∉ body) (hrest : Sequences rest) :
    Sequences ('\x1b' :: '[' :: (body ++ 'm' :: rest))

/-- A row of escape sequences is deleted. -/
theorem Sequences.deleted {cs : List Char} (h : Sequences cs) (ds : List Char) :
  withoutSequences (cs ++ ds) = withoutSequences ds
  := by
  induction h with
  | nil => rfl
  | @cons body rest hbody _ ih =>
    rw [List.cons_append, List.cons_append, List.append_assoc, List.cons_append,
      withoutSequences_of_some (afterSequence?_append hbody _), ih]

/-- The text of a position has no escape character. -/
theorem escapeChar_not_mem_position (p : Position) :
  escapeChar ∉ p.text.toList
  := by
  have hdigits : ∀ n : Nat, escapeChar ∉ (toString n).toList := fun n hmem => by
    rw [Nat.toString_eq_repr, Nat.toList_repr] at hmem
    exact absurd (Nat.isDigit_of_mem_toDigits (by decide) (by decide) hmem) (by decide)
  simp only [Position.text, String.toList_append, List.mem_append, not_or]
  exact ⟨⟨hdigits p.line, by decide⟩, hdigits p.column⟩

namespace Report

/-- Whether a palette is made of nothing but escape sequences. -/
structure Palette.Sequenced (palette : Palette) : Prop where
  start (color : Color) : Sequences (palette.start color).toList
  reset : Sequences palette.reset.toList

/-- The texts of the pieces. -/
def texts (pieces : List Piece) : String :=
  String.join (pieces.map Piece.text)

/-- The colour can be switched off in front of further sequences. -/
theorem reset_sequences {cs : List Char} (hcs : Sequences cs) :
  Sequences (reset.toList ++ cs)
  := @Sequences.cons ['0'] _ (by decide) hcs

/-- Switching a colour on is a row of sequences. -/
theorem Color.start_sequences (color : Color) :
  Sequences color.start.toList
  := by
  have hground : ∀ a b : Char, 'm' ∉ [a, b] → Sequences ['\x1b', '[', a, b, 'm'] :=
    fun a b h => .cons h .nil
  cases color with
  | redGround => exact reset_sequences (hground '4' '1' (by decide))
  | red => exact reset_sequences (hground '3' '1' (by decide))
  | yellow => exact reset_sequences (hground '3' '3' (by decide))

/-- The palette of terminals is made of nothing but escape sequences. -/
theorem ansi_sequenced :
  ansi.Sequenced
  := ⟨Color.start_sequences, reset_sequences .nil⟩

/-- The texts of pieces are written one behind the other. -/
theorem texts_cons (piece : Piece) (pieces : List Piece) :
  texts (piece :: pieces) = piece.text ++ texts pieces
  := by
  simp [texts, String.join_cons]

/-- The layout without colours has the texts of the pieces of the one with them. -/
theorem plain_eq (options : Options) (message : String) (position : Option Position)
    (file : String) :
  plain options message position file = texts (pieces options message position file)
  := by
  have hmark (s : String) : "[Error] " ++ s = "[Error]" ++ (" " ++ s) := by
    rw [← String.append_assoc]
    rfl
  cases hprefix : options.showPrefix <;> cases position <;>
    simp [plain, pieces, hprefix, texts, hmark, String.append_assoc]

variable {palette : Palette}

/-- Deleting the sequences of pieces that are drawn gives the texts of the pieces. -/
theorem Palette.Sequenced.uncolored_draw (hpalette : palette.Sequenced) {pieces : List Piece}
    (hpieces : ∀ piece ∈ pieces, escapeChar ∉ piece.text.toList) :
  withoutSequences (palette.draw pieces).toList = (texts pieces).toList
  := by
  induction pieces with
  | nil => exact withoutSequences_nil
  | cons piece pieces ih =>
    obtain ⟨hpiece, hpieces⟩ := List.forall_mem_cons.mp hpieces
    rw [texts_cons, String.toList_append, ← ih hpieces]
    obtain ⟨_ | color, s⟩ := piece
    · rw [draw, String.toList_append, withoutSequences_append hpiece]
    · rw [draw, String.toList_append, String.toList_append, String.toList_append,
        List.append_assoc, List.append_assoc, (hpalette.start color).deleted,
        withoutSequences_append hpiece, hpalette.reset.deleted]

/-- A report has no escape character if its message and its file have none. -/
theorem escapeChar_not_mem_pieces (options : Options) {message file : String}
    (hmessage : escapeChar ∉ message.toList) (hfile : escapeChar ∉ file.toList)
    (position : Option Position) :
  ∀ piece ∈ pieces options message position file, escapeChar ∉ piece.text.toList
  := by
  have hmark : escapeChar ∉ "[Error]".toList := by decide
  have hblank : escapeChar ∉ " ".toList := by decide
  have hopening : escapeChar ∉ " (".toList := by decide
  have hclosing : escapeChar ∉ ")".toList := by decide
  simp only [pieces, List.forall_mem_append, List.forall_mem_cons]
  refine ⟨⟨⟨?_, hmessage, hopening, hfile, List.forall_mem_nil _⟩, ?_⟩, hclosing,
    List.forall_mem_nil _⟩
  · split
    · exact List.forall_mem_cons.mpr ⟨hmark, List.forall_mem_singleton.mpr hblank⟩
    · exact List.forall_mem_nil _
  · cases position with
    | none => exact List.forall_mem_nil _
    | some p =>
      exact List.forall_mem_cons.mpr
        ⟨hblank, List.forall_mem_singleton.mpr (escapeChar_not_mem_position p)⟩

/-- A report drawn with escape sequences is the plain one once they are deleted. -/
theorem Palette.Sequenced.uncolored_report (hpalette : palette.Sequenced) (options : Options)
    {message file : String} (hmessage : escapeChar ∉ message.toList)
    (hfile : escapeChar ∉ file.toList) (position : Option Position) :
  uncolored (palette.draw (pieces options message position file))
    = text { options with showColor := false } message position file
  := by
  have hdraw := hpalette.uncolored_draw
    (escapeChar_not_mem_pieces options hmessage hfile position)
  rw [uncolored, hdraw, String.ofList_toList, text, if_neg Bool.false_ne_true, plain_eq]
  rfl

/-- The escape sequences of a terminal, deleted from a report in colours, leave the plain report,
whether it is of a message, of a syntax error or of a fault, which is reported in its own file if
it has one; and so do those of any palette made of nothing but escape sequences. -/
theorem uncolored_text (options : Options) (file : String) :
  (∀ message position, escapeChar ∉ message.toList → escapeChar ∉ file.toList →
    uncolored (text { options with showColor := true } message position file)
        = text { options with showColor := false } message position file
      ∧ ∀ palette : Palette, palette.Sequenced →
        uncolored (palette.draw (pieces options message position file))
          = text { options with showColor := false } message position file)
  ∧ (∀ e : SyntaxError, escapeChar ∉ e.message.toList → escapeChar ∉ file.toList →
    uncolored (e.report { options with showColor := true } file)
      = e.report { options with showColor := false } file)
  ∧ ∀ f : Fault, escapeChar ∉ f.message.toList → escapeChar ∉ (f.file.getD file).toList →
    uncolored (f.report { options with showColor := true } file)
        = f.report { options with showColor := false } file
      ∧ f.report { options with showColor := false } file
        = text { options with showColor := false } f.message f.position? (f.file.getD file)
  := by
  have htext : ∀ message position file, escapeChar ∉ message.toList → escapeChar ∉ file.toList →
      uncolored (text { options with showColor := true } message position file)
        = text { options with showColor := false } message position file := by
    intro message position file hmessage hfile
    rw [text, if_pos rfl]
    exact ansi_sequenced.uncolored_report options hmessage hfile position
  refine ⟨fun message position hmessage hfile => ⟨?_, fun palette hpalette => ?_⟩,
    fun e hmessage hfile => ?_, fun f hmessage hfile => ⟨?_, rfl⟩⟩
  · exact htext message position file hmessage hfile
  · exact hpalette.uncolored_report options hmessage hfile position
  · exact htext e.message (some e.position) file hmessage hfile
  · exact htext f.message f.position? (f.file.getD file) hmessage hfile

/-- A report with a position, and one without. -/
theorem uncolored_text_division :
  uncolored (text Options.standard "Division by zero" (some ⟨3, 7⟩) "main")
      = text { Options.standard with showColor := false } "Division by zero" (some ⟨3, 7⟩) "main"
    ∧ uncolored (ansi.draw (pieces Options.standard "Division by zero" none "main"))
      = text { Options.standard with showColor := false } "Division by zero" none "main"
    ∧ uncolored (SyntaxError.report ⟨.unclosedBlock, ⟨1, 2⟩⟩ Options.standard "main")
      = SyntaxError.report ⟨.unclosedBlock, ⟨1, 2⟩⟩ { Options.standard with showColor := false }
        "main"
    ∧ uncolored (Fault.report ⟨.divisionByZero, some 3, none, some "lib"⟩ Options.standard "\x1b")
      = Fault.report ⟨.divisionByZero, some 3, none, some "lib"⟩
        { Options.standard with showColor := false } "\x1b"
  := by
  obtain ⟨hmessage, hsyntax, -⟩ := uncolored_text Options.standard "main"
  obtain ⟨-, -, hfault⟩ := uncolored_text Options.standard "\x1b"
  exact ⟨(hmessage _ _ (by decide) (by decide)).1,
    (hmessage _ none (by decide) (by decide)).2 ansi ansi_sequenced,
    hsyntax _ (by decide) (by decide), (hfault _ (by decide) (by decide)).1⟩

end Report

end Scriptlet
