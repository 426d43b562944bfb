import Mathlib.Tactic.Common
import Scriptlet.Proofs.Parsing.Statements

/-!
# Where syntax errors are reported

A rule reports an error at the token it is met at or at one that it has read before, never at one
further on.  A rule that reads a token before it can fail reports its errors behind that token.
-/

namespace Scriptlet

namespace Parse

/-- Whether `pos` is the position of a token, or of the end, that reading from `start` on has
reached when `rest` is left. -/
def Reached (finish : Position) (start rest : List Token) (pos : Position) : Prop :=
  ∃ q, q <:+ start ∧ rest <:+ q ∧ hereOf finish q = pos

/-- Whether what is left of `l` is left behind, by an error only at a position that reading from
`start` on has reached by then. -/
def Leaves (finish : Position) (start l : List Token) {α : Type} :
    EStateM.Result SyntaxError (List Token) α → Prop
  | .ok _ rest => rest <:+ l
  | .error e rest => rest <:+ l ∧ Reached finish start rest e.position

/-- Whether `p` reads tokens off the front of what is left of `l`, and reports errors only at
positions that reading from `start` on has reached by then. -/
def Sited (finish : Position) (start l : List Token) {α : Type} (p : Parse α) : Prop :=
  ∀ m, m <:+ l → m <:+ start → Leaves finish start m (p m)

section

variable {finish pos : Position} {start l m : List Token}

/-- What has been reached stays so when more is read. -/
theorem Reached.suffix (h : Reached finish start l pos) (hm : m <:+ l) :
  Reached finish start m pos
  := by
  obtain ⟨q, hq, hlq, hpos⟩ := h
  exact ⟨q, hq, hm.trans hlq, hpos⟩

/-- Where the first token stands has been reached. -/
theorem reached_here (finish : Position) (hm : m <:+ start) :
  Reached finish start m (hereOf finish m)
  := ⟨m, hm, List.suffix_rfl, rfl⟩

/-- A run of which this holds is one of which it holds further on. -/
theorem Sited.suffix {α : Type} {p : Parse α} (h : Sited finish start l p) (hm : m <:+ l) :
  Sited finish start m p
  := fun m' hm' => h m' (hm'.trans hm)

/-- What `p` leaves is what `f` goes on with. -/
theorem Leaves.bind {α β : Type} {p : Parse β} {f : β → Parse α} (hp : Leaves finish start m (p l))
    (hm : m <:+ start) (hf : ∀ b, Sited finish start m (f b)) :
  Leaves finish start m ((p >>= f) l)
  := by
  cases hpl : p l with
  | ok b rest =>
      rw [hpl] at hp
      have hnext := hf b rest hp (hp.trans hm)
      rw [bind_ok hpl]
      cases hfb : f b rest with
      | ok a rest' =>
          rw [hfb] at hnext
          exact hnext.trans hp
      | error e rest' =>
          rw [hfb] at hnext
          exact hnext.imp_left fun h => h.trans hp
  | error e rest =>
      rw [hpl] at hp
      rw [bind_error hpl]
      exact hp

namespace Sited

variable {α β : Type}

/-- What is made at once reads nothing. -/
theorem pure (a : α) :
  Sited finish start l (Pure.pure a : Parse α)
  := fun _ _ _ => List.suffix_rfl

/-- An error at a position that has been reached. -/
theorem raise {e : SyntaxError} (he : Reached finish start l e.position) :
  Sited finish start l (throw e : Parse α)
  := fun _ hm _ => ⟨List.suffix_rfl, he.suffix hm⟩

/-- Two steps report errors where each of them does. -/
theorem bind {p : Parse β} {f : β → Parse α} (hp : Sited finish start l p)
    (hf : ∀ b, Sited finish start l (f b)) :
  Sited finish start l (p >>= f)
  := fun m hm hstart => (hp m hm hstart).bind hstart fun b => (hf b).suffix hm

/-- What is made of a result reports no errors of its own. -/
theorem map {p : Parse β} (f : β → α) (hp : Sited finish start l p) :
  Sited finish start l (f <$> p)
  := by
  rw [map_eq_pure_bind]
  exact hp.bind fun _ => pure _

/-- A choice reports errors where its branches do. -/
theorem ite {c : Prop} [Decidable c] {p q : Parse α} (hp : Sited finish start l p)
    (hq : Sited finish start l q) :
  Sited finish start l (if c then p else q)
  := by
  split
  · exact hp
  · exact hq

/-- A look at the kind of the first token reports no error. -/
theorem kind :
  Sited finish start l Parse.kind
  := by
  intro m _ _
  cases m
  all_goals exact List.suffix_rfl

/-- A look at the kind of the second token reports no error. -/
theorem secondKind :
  Sited finish start l Parse.secondKind
  := by
  intro m _ _
  rcases m with _ | ⟨t, _ | ⟨u, m⟩⟩
  all_goals exact List.suffix_rfl

/-- A look at the text of the first token reports no error. -/
theorem word :
  Sited finish start l Parse.word
  := by
  intro m _ _
  cases m
  all_goals exact List.suffix_rfl

/-- A step over the first token reports no error. -/
theorem advance :
  Sited finish start l Parse.advance
  := fun m _ _ => List.tail_suffix m

/-- What follows may report errors at the position of the next token, which has been reached. -/
theorem here {f : Position → Parse α}
    (hf : ∀ {m pos}, Reached finish start m pos → Sited finish start m (f pos)) :
  Sited finish start l (Parse.here finish >>= f)
  := by
  intro m _ hstart
  rw [here_bind]
  exact hf (reached_here finish hstart) m List.suffix_rfl hstart

/-- An error is reported where the first token stands. -/
theorem fail (flaw : SyntaxFlaw) :
  Sited finish start l (Parse.fail finish flaw : Parse α)
  := here fun hpos => raise hpos

/-- That something else is called for is reported where the first token stands. -/
theorem unexpected (what : Expectation) :
  Sited finish start l (Parse.unexpected finish what : Parse α)
  := by
  intro m hm hstart
  cases m with
  | nil => exact fail (α := α) _ [] hm hstart
  | cons t m => exact fail (α := α) _ (t :: m) hm hstart

/-- That another token is called for is reported where the first token stands. -/
theorem expect (wanted : TokenKind) (what : Expectation) :
  Sited finish start l (Parse.expect finish wanted what)
  := kind.bind fun _ => ite advance (unexpected what)

/-- That a name is called for is reported where the first token stands. -/
theorem identifier (what : Expectation) :
  Sited finish start l (Parse.identifier finish what)
  := kind.bind fun _ =>
    ite (word.bind fun _ => advance.bind fun _ => pure _) (unexpected what)

/-- A semicolon or none is no error. -/
theorem skipSemicolon :
  Sited finish start l Parse.skipSemicolon
  := kind.bind fun _ => ite advance (pure _)

/-- A comma or none is no error. -/
theorem skipComma :
  Sited finish start l Parse.skipComma
  := kind.bind fun _ => ite (advance.bind fun _ => pure _) (pure _)

/-- That no expression stands there is reported where the first token stands. -/
theorem noExpression :
  Sited finish start l (Parse.noExpression finish : Parse α)
  := by
  apply word.bind
  intro text
  apply kind.bind
  intro k
  split
  · exact ite (fail _) (fail _)
  · exact fail _
  · exact fail _

end Sited

/-! ### Behind the first token -/

variable {α β : Type} {t : Token} {ts : List Token} {p : Parse α}

/-- Whether `p` reads the first token of `t :: ts`, and reports errors only behind it. -/
def Passes (finish : Position) (t : Token) (ts : List Token) (p : Parse α) : Prop :=
  Leaves finish ts ts (p (t :: ts))

/-- What follows a run that reads the first token reports errors behind it. -/
theorem Passes.bind {p : Parse β} {f : β → Parse α} (hp : Passes finish t ts p)
    (hf : ∀ b, Sited finish ts ts (f b)) :
  Passes finish t ts (p >>= f)
  := Leaves.bind hp List.suffix_rfl hf

/-- A run that does the same at these tokens is as good. -/
theorem Passes.of_eq {q : Parse α} (hq : Passes finish t ts q) (h : p (t :: ts) = q (t :: ts)) :
  Passes finish t ts p
  := by
  unfold Passes
  rw [h]
  exact hq

/-- Whether `p` reads a token before anything else. -/
def Advances (finish : Position) (p : Parse α) : Prop :=
  ∃ q : Position → Parse α,
    p = (Parse.here finish >>= fun pos => Parse.advance >>= fun _ => q pos)
    ∧ ∀ start l pos, Sited finish start l (q pos)

/-- A run that reads a token first reports errors at the positions that it reaches. -/
theorem Advances.sited (h : Advances finish p) :
  Sited finish start l p
  := by
  obtain ⟨q, rfl, hq⟩ := h
  exact .here fun _ => Sited.advance.bind fun _ => hq _ _ _

/-- A run that reads a token first reports errors behind it. -/
theorem Advances.passes (h : Advances finish p) :
  Passes finish t ts p
  := by
  obtain ⟨q, rfl, hq⟩ := h
  have hadvance : Passes finish t ts Parse.advance := List.suffix_rfl
  exact (hadvance.bind fun _ => hq ts ts t.position).of_eq rfl

end

/-! ### The rules -/

/-- Whether a rule is given a position to report errors at that fulfils `S`. -/
def Rule.StartsIn (S : Position → Prop) : Rule → Prop
  | blockRest start => S start
  | _ => True

section

variable {finish : Position} {start l : List Token} {n : Nat}

/-- Whether all rules with fuel `n` report errors only at positions that have been reached. -/
def SitedWith (finish : Position) (n : Nat) : Prop :=
  ∀ ⦃start l⦄ (r : Rule), r.StartsIn (Reached finish start l) →
    Sited finish start l (r.run finish n)

/-- An import reads its keyword first. -/
theorem advances_useStatement (finish : Position) :
  Advances finish (Parse.useStatement finish)
  := by
  refine ⟨_, rfl, fun _ _ _ => Sited.kind.bind fun k => ?_⟩
  split
  case h_3 => exact .unexpected _
  all_goals
    exact Sited.word.bind fun _ => Sited.advance.bind fun _ => Sited.skipSemicolon.bind fun _ =>
      .pure _

/-- Parameters report errors where their names do. -/
theorem sited_params (ih : Sited finish start l (Parse.paramNames finish n [])) :
  Sited finish start l (Parse.params finish n)
  := Sited.kind.bind fun _ => .ite (.pure _) ih

/-- A statement reports errors where the rule that its first token calls for does. -/
theorem sited_statement (ih : SitedWith finish n) :
  Sited finish start l (Parse.statement finish (n + 1))
  := by
  simp only [Parse.statement]
  refine Sited.kind.bind fun k => ?_
  split
  · exact ih .letStatement trivial
  · exact ih .returnStatement trivial
  · exact ih .useStatement trivial
  · exact .here fun _ => (ih .block trivial).bind fun _ => .pure _
  · exact Sited.secondKind.bind fun _ =>
      .ite (ih .funcStatement trivial) (ih .exprStatement trivial)
  · exact ih .exprStatement trivial

/-- An operand reports errors where it stands or inside. -/
theorem sited_primary (ih : SitedWith finish n) :
  Sited finish start l (Parse.primary finish (n + 1))
  := by
  simp only [Parse.primary]
  refine .here fun hpos => Sited.kind.bind fun k => ?_
  split
  case h_1 | h_2 | h_6 => exact Sited.word.bind fun _ => Sited.advance.bind fun _ => .pure _
  case h_3 | h_4 | h_5 => exact Sited.advance.bind fun _ => .pure _
  case h_7 =>
    exact Sited.advance.bind fun _ => (ih (.binary _) trivial).bind fun _ =>
      (Sited.expect _ _).bind fun _ => .pure _
  case h_8 =>
    exact Sited.advance.bind fun _ => (ih (.expressions _) trivial).bind fun _ =>
      (Sited.expect _ _).bind fun _ => .pure _
  case h_9 =>
    exact Sited.advance.bind fun _ => (ih .hashEntries trivial).bind fun _ =>
      (Sited.expect _ _).bind fun _ => .pure _
  case h_10 => exact ih .conditional trivial
  case h_11 =>
    exact Sited.advance.bind fun _ => (ih (.condition _) trivial).bind fun _ =>
      (ih .block trivial).bind fun _ => .pure _
  case h_12 => exact Sited.advance.bind fun _ => ih (.function _) trivial
  case h_13 => exact ih .decorated trivial
  case h_14 => exact .noExpression

/-- A block that is not closed is reported where it was opened. -/
theorem sited_blockRest (ih : SitedWith finish n) {pos : Position}
    (hpos : Reached finish start l pos) :
  Sited finish start l (Parse.blockRest finish (n + 1) pos)
  := by
  simp only [Parse.blockRest]
  refine Sited.kind.bind fun k => ?_
  split
  · exact Sited.advance.bind fun _ => .pure _
  · exact .raise hpos
  · exact Sited.advance.bind fun _ => ih (.blockRest pos) hpos
  · exact (ih .statement trivial).bind fun _ => (ih (.blockRest pos) hpos).bind fun _ =>
      .pure _

/-- An operator reports errors where its right side does. -/
theorem sited_binaryRest (ih : SitedWith finish n) (level : Nat)
    (left : Expr) :
  Sited finish start l (Parse.binaryRest finish (n + 1) level left)
  := by
  simp only [Parse.binaryRest]
  refine Sited.kind.bind fun k => .ite (.ite (.pure _) (ih (.assignment _ _) trivial)) ?_
  split
  · exact .pure _
  · exact .ite (.pure _) (.here fun _ => Sited.advance.bind fun _ =>
      (ih (.binary _) trivial).bind fun _ => ih (.binaryRest _ _) trivial)

/-- A prefix reports errors where what stands behind it does. -/
theorem sited_unary (ih : SitedWith finish n) :
  Sited finish start l (Parse.unary finish (n + 1))
  := by
  simp only [Parse.unary]
  refine .here fun _ => Sited.kind.bind fun k => ?_
  split
  · exact ih .suffixed trivial
  · exact Sited.advance.bind fun _ => (ih (.binary _) trivial).bind fun _ => .pure _
  · exact Sited.advance.bind fun _ => .here fun _ =>
      (Sited.identifier _).bind fun _ => .pure _
  · exact Sited.advance.bind fun _ => (ih .unary trivial).bind fun _ => .pure _

/-- A decorated declaration reads its decorator first. -/
theorem advances_decorated (ih : SitedWith finish n) :
  Advances finish (Parse.decorated finish (n + 1))
  := by
  simp only [Parse.decorated]
  refine ⟨_, rfl, fun _ _ _ => .here fun _ => (Sited.identifier _).bind fun _ => .here fun _ =>
    Sited.kind.bind fun _ => .ite ?_ ?_⟩
  · exact Sited.advance.bind fun _ => (ih (.expressions _) trivial).bind fun _ =>
      (Sited.expect _ _).bind fun _ => (ih .declaration trivial).bind fun _ => .pure _
  · exact (ih .declaration trivial).bind fun _ => .pure _

/-- A conditional reports errors in its condition or in its branches. -/
theorem sited_conditional (ih : SitedWith finish n) :
  Sited finish start l (Parse.conditional finish (n + 1))
  := by
  simp only [Parse.conditional]
  refine .here fun _ => Sited.advance.bind fun _ =>
    (ih (.condition _) trivial).bind fun _ => (ih .block trivial).bind fun _ =>
    Sited.kind.bind fun _ => .ite ?_ (.pure _)
  refine Sited.advance.bind fun _ => Sited.kind.bind fun _ => .ite ?_ ?_
  · exact .here fun _ => (ih .conditional trivial).bind fun _ => .pure _
  · exact (ih .block trivial).bind fun _ => .pure _

/-- A parameter that is there twice is reported where it stands for the second time. -/
theorem sited_paramNames (ih : SitedWith finish n) (found : List String) :
  Sited finish start l (Parse.paramNames finish (n + 1) found)
  := by
  simp only [Parse.paramNames]
  refine .here fun hpos => (Sited.identifier _).bind fun _ => ?_
  split
  · exact (Sited.raise hpos).bind fun _ => Sited.skipComma.bind fun _ =>
      .ite (ih (.paramNames _) trivial) (.pure _)
  · exact Sited.skipComma.bind fun _ => .ite (ih (.paramNames _) trivial) (.pure _)

/-- A definition reads its keyword first. -/
theorem advances_letStatement (ih : SitedWith finish n) :
  Advances finish (Parse.letStatement finish (n + 1))
  := by
  simp only [Parse.letStatement]
  exact ⟨_, rfl, fun _ _ _ => (Sited.identifier _).bind fun _ => (Sited.expect _ _).bind fun _ =>
    (ih (.binary _) trivial).bind fun _ => Sited.skipSemicolon.bind fun _ => .pure _⟩

/-- A return reads its keyword first. -/
theorem advances_returnStatement (ih : SitedWith finish n) :
  Advances finish (Parse.returnStatement finish (n + 1))
  := by
  simp only [Parse.returnStatement]
  refine ⟨_, rfl, fun _ _ _ => Sited.kind.bind fun k => ?_⟩
  split
  case h_4 =>
    exact (ih (.binary _) trivial).bind fun _ => Sited.skipSemicolon.bind fun _ => .pure _
  all_goals exact Sited.skipSemicolon.bind fun _ => .pure _

/-- A function reports errors in its parameters or in its body. -/
theorem sited_function (ih : SitedWith finish n) (pos : Position) :
  Sited finish start l (Parse.function finish (n + 1) pos)
  := by
  simp only [Parse.function]
  refine Sited.kind.bind fun _ => ?_
  have hrest (name : Option String) : Sited finish start l (do
      Parse.expect finish .leftParen .paramsStart
      let names ← Parse.params finish n
      Parse.expect finish .rightParen .paramsEnd
      let body ← Parse.block finish n
      return Expr.func pos name names body) :=
    (Sited.expect _ _).bind fun _ => (ih .params trivial).bind fun _ =>
      (Sited.expect _ _).bind fun _ => (ih .block trivial).bind fun _ => .pure _
  split
  · exact ((Sited.identifier _).map _).bind hrest
  · exact (Sited.pure _).bind hrest

/-- What cannot be assigned to is reported at the sign behind it. -/
theorem sited_assignment (ih : SitedWith finish n) (level : Nat)
    (left : Expr) :
  Sited finish start l (Parse.assignment finish (n + 1) level left)
  := by
  simp only [Parse.assignment]
  refine .here fun hpos => Sited.advance.bind fun _ => ?_
  split
  · exact (ih (.binary _) trivial).bind fun _ => ih (.binaryRest _ _) trivial
  · exact .raise hpos

/-- Calls and indices report errors inside or where they are not closed. -/
theorem sited_suffixes (ih : SitedWith finish n) (e : Expr) :
  Sited finish start l (Parse.suffixes finish (n + 1) e)
  := by
  simp only [Parse.suffixes]
  refine .here fun _ => Sited.kind.bind fun k => ?_
  split
  · exact Sited.advance.bind fun _ => (ih (.expressions _) trivial).bind fun _ =>
      (Sited.expect _ _).bind fun _ => ih (.suffixes _) trivial
  · exact Sited.advance.bind fun _ => (ih (.binary _) trivial).bind fun _ =>
      (Sited.expect _ _).bind fun _ => ih (.suffixes _) trivial
  · exact .pure _

/-- A list reports errors where its expressions do. -/
theorem sited_expressions (ih : SitedWith finish n) (stop : TokenKind) :
  Sited finish start l (Parse.expressions finish (n + 1) stop)
  := by
  simp only [Parse.expressions]
  refine Sited.kind.bind fun _ => .ite (.pure _) ?_
  exact (ih (.binary _) trivial).bind fun _ => Sited.skipComma.bind fun _ =>
    .ite ((ih (.expressions _) trivial).bind fun _ => .pure _) (.pure _)

/-- Entries report errors in their keys and values or where a colon is missing. -/
theorem sited_hashEntries (ih : SitedWith finish n) :
  Sited finish start l (Parse.hashEntries finish (n + 1))
  := by
  simp only [Parse.hashEntries]
  refine Sited.kind.bind fun _ => .ite (.pure _) ?_
  exact (ih .hashKey trivial).bind fun _ => (Sited.expect _ _).bind fun _ =>
    (ih (.binary _) trivial).bind fun _ => Sited.skipComma.bind fun _ =>
    .ite ((ih .hashEntries trivial).bind fun _ => .pure _) (.pure _)

/-- A key reports errors where its expression does. -/
theorem sited_hashKey (ih : SitedWith finish n) :
  Sited finish start l (Parse.hashKey finish (n + 1))
  := by
  simp only [Parse.hashKey]
  refine Sited.kind.bind fun _ => Sited.secondKind.bind fun _ => .ite ?_ (ih (.binary _) trivial)
  exact .here fun _ => Sited.word.bind fun _ => Sited.advance.bind fun _ => .pure _

/-- What cannot be decorated is reported where it stands. -/
theorem sited_declaration (ih : SitedWith finish n) :
  Sited finish start l (Parse.declaration finish (n + 1))
  := by
  simp only [Parse.declaration]
  refine Sited.kind.bind fun k => ?_
  split
  · exact ih .letStatement trivial
  · exact Sited.secondKind.bind fun _ => .ite (ih .funcStatement trivial) (.fail _)
  · exact .here fun _ => (ih .decorated trivial).bind fun _ => .pure _
  · exact .fail _

/-- All rules report errors only at positions that have been reached. -/
theorem sitedWith (n : Nat) :
  SitedWith finish n
  := by
  induction n with
  | zero =>
      intro start l r _
      by_cases hp : r = .params
      · subst hp
        exact sited_params (.fail _)
      by_cases hu : r = .useStatement
      · subst hu
        exact (advances_useStatement finish).sited
      rw [r.run_zero finish hp hu]
      exact .fail _
  | succ n ih =>
      intro start l r hr
      cases r with
      | statement => exact sited_statement ih
      | exprStatement =>
          exact .here fun _ => (ih (.binary _) trivial).bind fun _ =>
            Sited.skipSemicolon.bind fun _ => .pure _
      | letStatement => exact (advances_letStatement ih).sited
      | returnStatement => exact (advances_returnStatement ih).sited
      | useStatement => exact (advances_useStatement finish).sited
      | funcStatement =>
          exact .here fun _ => Sited.advance.bind fun _ => Sited.word.bind fun _ =>
            (ih (.function _) trivial).bind fun _ => Sited.skipSemicolon.bind fun _ => .pure _
      | function pos => exact sited_function ih pos
      | params => exact sited_params (sited_paramNames ih [])
      | paramNames found => exact sited_paramNames ih found
      | block =>
          exact .here fun hpos => (Sited.expect _ _).bind fun _ =>
            ih (.blockRest _) hpos
      | blockRest start => exact sited_blockRest ih hr
      | binary level =>
          exact (ih .unary trivial).bind fun _ => ih (.binaryRest _ _) trivial
      | binaryRest level left => exact sited_binaryRest ih level left
      | assignment level left => exact sited_assignment ih level left
      | unary => exact sited_unary ih
      | suffixed => exact (ih .primary trivial).bind fun _ => ih (.suffixes _) trivial
      | suffixes e => exact sited_suffixes ih e
      | expressions stop => exact sited_expressions ih stop
      | primary => exact sited_primary ih
      | hashEntries => exact sited_hashEntries ih
      | hashKey => exact sited_hashKey ih
      | condition keyword =>
          exact (Sited.expect _ _).bind fun _ => (ih (.binary _) trivial).bind fun _ =>
            (Sited.expect _ _).bind fun _ => .pure _
      | conditional => exact sited_conditional ih
      | decorated => exact (advances_decorated ih).sited
      | declaration => exact sited_declaration ih

/-- A statement that starts with a token that can only start a statement reads that token before it
can fail. -/
theorem passes_statement {t : Token} (ht : restarts t.kind = true) (ts : List Token) :
  Passes finish t ts (Parse.statement finish (n + 7))
  := by
  have hkind : t.kind = .letWord ∨ t.kind = .returnWord ∨ t.kind = .useWord
      ∨ t.kind = .decorator := by
    simpa [restarts] using ht
  rcases hkind with hkind | hkind | hkind | hkind
  · apply (advances_letStatement (sitedWith (n + 5))).passes.of_eq
    rw [Parse.statement, kind_bind, kindOf_cons, hkind]
  · apply (advances_returnStatement (sitedWith (n + 5))).passes.of_eq
    rw [Parse.statement, kind_bind, kindOf_cons, hkind]
  · apply (advances_useStatement finish).passes.of_eq
    rw [Parse.statement, kind_bind, kindOf_cons, hkind]
  · have hprimary : Passes finish t ts (Parse.primary finish (n + 2)) := by
      apply (advances_decorated (sitedWith n)).passes.of_eq
      rw [Parse.primary, here_bind, kind_bind, kindOf_cons, hkind]
    have hunary : Passes finish t ts (Parse.unary finish (n + 4)) := by
      have hsuffixed : Passes finish t ts (Parse.suffixed finish (n + 3)) := by
        rw [Parse.suffixed]
        exact hprimary.bind fun _ => sitedWith (n + 2) (.suffixes _) trivial
      apply hsuffixed.of_eq
      rw [Parse.unary, here_bind, kind_bind, kindOf_cons, hkind]
      rfl
    have hbinary : Passes finish t ts (Parse.binary finish (n + 5) assignLevel) := by
      rw [Parse.binary]
      exact hunary.bind fun _ => sitedWith (n + 4) (.binaryRest _ _) trivial
    have hexpr : Passes finish t ts (Parse.exprStatement finish (n + 6)) := by
      have hrest : Passes finish t ts (do
          let e ← Parse.binary finish (n + 5) assignLevel
          Parse.skipSemicolon
          return Stmt.expr t.position e) :=
        hbinary.bind fun _ => Sited.skipSemicolon.bind fun _ => .pure _
      apply hrest.of_eq
      rw [Parse.exprStatement, here_bind, hereOf_cons]
    apply hexpr.of_eq
    rw [Parse.statement, kind_bind, kindOf_cons, hkind]

end

end Parse

end Scriptlet
