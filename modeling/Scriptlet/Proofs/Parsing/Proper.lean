import Scriptlet.Proofs.Parsing.Sites
import Scriptlet.Proofs.Tree.Proper

/-!
# Parsing makes proper trees

Every statement that is parsed is proper, whether or not others are malformed: no rule needs more
than that the trees it goes on with are proper, and that its number literals are those of tokens.
Only the declaration of a function has to be known to go on with a name, as it is wherever one is
read.
-/

namespace Scriptlet

namespace Parse

/-! ### What rules make of tokens -/

/-- Whether `p` makes something that fulfils `Q` of tokens that fulfil `T`, unless it fails, and
leaves such tokens. -/
def Yields (T : Token → Prop) {α : Type} (p : Parse α) (Q : α → Prop) : Prop :=
  ∀ l, (∀ t ∈ l, T t) → Ensures p l (fun a rest => Q a ∧ ∀ t ∈ rest, T t) fun _ => True

/-- What a run ensures twice it ensures at once. -/
theorem Ensures.and {α : Type} {p : Parse α} {l : List Token} {Q R : α → List Token → Prop}
    {E : List Token → Prop} (hQ : Ensures p l Q E) (hR : Ensures p l R E) :
  Ensures p l (fun a rest => Q a rest ∧ R a rest) E
  := by
  unfold Ensures at hQ hR ⊢
  split
  all_goals simp_all only [and_self]

namespace Yields

variable {T : Token → Prop} {finish : Position} {α β : Type} {Q : α → Prop} {R : β → Prop}

/-- What is made at once leaves the tokens. -/
theorem pure {a : α} (ha : Q a) :
  Yields T (Pure.pure a) Q
  := fun _ hl => ⟨ha, hl⟩

/-- What fails makes nothing. -/
theorem raise (e : SyntaxError) :
  Yields T (throw e) Q
  := fun _ _ => trivial

/-- What comes of two steps is made by the second of what the first has made. -/
theorem bind {p : Parse β} {f : β → Parse α} (hp : Yields T p R)
    (hf : ∀ b, R b → Yields T (f b) Q) :
  Yields T (p >>= f) Q
  := by
  intro l hl
  rw [ensures_bind]
  apply (hp l hl).mono
  · rintro b rest ⟨hb, hrest⟩
    exact hf b hb rest hrest
  · exact fun _ _ => trivial

/-- Both branches are to be shown. -/
theorem ite {c : Prop} [Decidable c] {p q : Parse α} (hp : Yields T p Q) (hq : Yields T q Q) :
  Yields T (if c then p else q) Q
  := by
  split
  · exact hp
  · exact hq

/-- A look at the kind of the first token leaves the tokens. -/
theorem kind :
  Yields T Parse.kind fun _ => True
  := by
  intro l hl
  rw [ensures_kind]
  exact ⟨trivial, hl⟩

/-- A look at the kind of the second token leaves the tokens. -/
theorem secondKind :
  Yields T Parse.secondKind fun _ => True
  := by
  intro l hl
  rw [ensures_secondKind]
  exact ⟨trivial, hl⟩

/-- A look at where the first token stands leaves the tokens. -/
theorem here :
  Yields T (Parse.here finish) fun _ => True
  := by
  intro l hl
  rw [ensures_here]
  exact ⟨trivial, hl⟩

/-- A look at the text of the first token leaves the tokens. -/
theorem word :
  Yields T Parse.word fun _ => True
  := by
  intro l hl
  rw [ensures_word]
  exact ⟨trivial, hl⟩

/-- A step over the first token leaves tokens that were there. -/
theorem advance :
  Yields T Parse.advance fun _ => True
  := fun _ hl => ⟨trivial, fun t ht => hl t (List.mem_of_mem_tail ht)⟩

/-- An error that is reported makes nothing. -/
theorem fail (flaw : SyntaxFlaw) :
  Yields T (Parse.fail finish flaw) Q
  := here.bind fun _ _ => raise _

/-- The error that something else is called for makes nothing. -/
theorem unexpected (what : Expectation) :
  Yields T (Parse.unexpected finish what) Q
  := by
  intro l _
  rw [ensures_unexpected]
  trivial

/-- The error that no expression stands there makes nothing. -/
theorem noExpression :
  Yields T (Parse.noExpression finish) Q
  := by
  intro l _
  rw [ensures_noExpression]
  trivial

/-- An expected token leaves tokens that were there. -/
theorem expect (wanted : TokenKind) (what : Expectation) :
  Yields T (Parse.expect finish wanted what) fun _ => True
  := kind.bind fun _ _ => ite advance (unexpected what)

/-- A name leaves tokens that were there. -/
theorem identifier (what : Expectation) :
  Yields T (Parse.identifier finish what) fun _ => True
  := kind.bind fun _ _ =>
    ite (word.bind fun _ _ => advance.bind fun _ _ => pure trivial) (unexpected what)

/-- A semicolon or none leaves tokens that were there. -/
theorem skipSemicolon :
  Yields T Parse.skipSemicolon fun _ => True
  := kind.bind fun _ _ => ite advance (pure trivial)

/-- A comma or none leaves tokens that were there. -/
theorem skipComma :
  Yields T Parse.skipComma fun _ => True
  := kind.bind fun _ _ => ite (advance.bind fun _ _ => pure trivial) (pure trivial)

end Yields

/-! ### What each rule makes -/

namespace Rule

variable (N : Position → Nat → Prop)

/-- What a rule takes for granted of what it goes on with.  The declaration of a function takes more
for granted, which depends on the tokens. -/
def Accepts : Rule → Prop
  | funcStatement => False
  | binaryRest _ left | assignment _ left => left.Everywhere (.proper N)
  | suffixes e => e.Everywhere (.proper N)
  | paramNames found => found.Nodup
  | _ => True

/-- Whether a rule may make something. -/
def Allows : (r : Rule) → r.Result → Prop
  | statement, s | exprStatement, s | returnStatement, s | useStatement, s =>
    Stmt.Everywhere (.proper N) s
  | letStatement, s | funcStatement, s | declaration, s => Stmt.Declaring N s
  | params, names | paramNames _, names => List.Nodup names
  | block, ss | blockRest _, ss => Stmt.AllEverywhere (.proper N) ss
  | expressions _, es => Expr.AllEverywhere (.proper N) es
  | hashEntries, entries => Expr.EntriesEverywhere (.proper N) entries
  | decorated, e => ∀ pos, Stmt.Declaring N (.expr pos e)
  | function _, e | binary _, e | binaryRest _ _, e | assignment _ _, e | unary, e | suffixed, e
  | suffixes _, e | primary, e | hashKey, e | condition _, e | conditional, e =>
    Expr.Everywhere (.proper N) e

end Rule

/-- Whether a token is no number, or `N` holds of its position and of the number that it writes. -/
def Counted (N : Position → Nat → Prop) (t : Token) : Prop :=
  t.kind = .number → N t.position (Numeral.value t.text.toList)

/-- Whether all rules with fuel `n` make of counted tokens only what they may. -/
structure ProperWith (finish : Position) (N : Position → Nat → Prop) (n : Nat) : Prop where
  rule (r : Rule) : r.Accepts N → Yields (Counted N) (r.run finish n) (r.Allows N)
  func (l : List Token) : (∀ t ∈ l, Counted N t) → kindOf l.tail = .identifier →
    Ensures (Parse.funcStatement finish n) l
      (fun s rest => s.Declaring N ∧ ∀ t ∈ rest, Counted N t) fun _ => True

section

variable {finish : Position} {N : Position → Nat → Prop} {n : Nat}

/-- A function literal in front of whose parameters a name stands has that name. -/
theorem named_function (pos : Position) {l : List Token} (hl : kindOf l = .identifier) :
  Ensures (Parse.function finish n pos) l (fun e _ => e.anonymous = false) fun _ => True
  := by
  have hany {α β : Type} {p : Parse β} {f : β → Parse α} {Q : α → Prop}
      (hf : ∀ b l, Ensures (f b) l (fun a _ => Q a) fun _ => True) (l : List Token) :
      Ensures (p >>= f) l (fun a _ => Q a) fun _ => True := by
    rw [ensures_bind]
    unfold Ensures
    split
    · exact hf _ _
    · trivial
  cases n with
  | zero =>
      rw [Parse.function, ensures_fail]
      trivial
  | succ n =>
      rw [Parse.function, ensures_bind, ensures_kind, if_pos hl, ensures_bind, ensures_map,
        ensures_identifier, if_pos hl]
      refine hany (fun _ => hany fun _ => hany fun _ => hany fun _ _ => ?_) _
      rfl

variable (ih : ProperWith finish N n)

include ih

/-- A definition or a named function is a proper statement, and so are the others. -/
theorem yields_statement :
  Yields (Counted N) (Parse.statement finish (n + 1)) (Rule.statement.Allows N)
  := by
  intro l hl
  rw [Parse.statement, ensures_bind, ensures_kind]
  split
  · apply (ih.rule .letStatement trivial l hl).mono _ fun _ h => h
    exact fun s rest h => ⟨h.1.everywhere, h.2⟩
  · exact ih.rule .returnStatement trivial l hl
  · exact ih.rule .useStatement trivial l hl
  · exact (Yields.here.bind fun _ _ => (ih.rule .block trivial).bind fun _ hbody =>
      .pure ⟨trivial, hbody⟩) l hl
  · rw [ensures_bind, ensures_secondKind]
    split
    next hname =>
      apply (ih.func l hl hname).mono _ fun _ h => h
      exact fun s rest h => ⟨h.1.everywhere, h.2⟩
    next => exact ih.rule .exprStatement trivial l hl
  · exact ih.rule .exprStatement trivial l hl

/-- A definition names its value, so no function in it stays without a name. -/
theorem yields_letStatement :
  Yields (Counted N) (Parse.letStatement finish (n + 1)) (Rule.letStatement.Allows N)
  := by
  rw [Parse.letStatement]
  exact Yields.here.bind fun _ _ => Yields.advance.bind fun _ _ =>
    (Yields.identifier _).bind fun name _ => (Yields.expect _ _).bind fun _ _ =>
    (ih.rule (.binary _) trivial).bind fun value hvalue => Yields.skipSemicolon.bind fun _ _ =>
    .pure (Stmt.declaring_define (value.anonymous_named name) (hvalue.named name))

/-- What a return hands back is proper. -/
theorem yields_returnStatement :
  Yields (Counted N) (Parse.returnStatement finish (n + 1)) (Rule.returnStatement.Allows N)
  := by
  rw [Parse.returnStatement]
  refine Yields.here.bind fun _ _ => Yields.advance.bind fun _ _ => Yields.kind.bind fun k _ => ?_
  split
  case h_4 =>
    exact (ih.rule (.binary _) trivial).bind fun _ he => Yields.skipSemicolon.bind fun _ _ =>
      .pure ⟨trivial, he⟩
  all_goals exact Yields.skipSemicolon.bind fun _ _ => .pure trivial

/-- A declared function has the name that stands in front of its parameters. -/
theorem yields_funcStatement {l : List Token} (hl : ∀ t ∈ l, Counted N t)
    (hname : kindOf l.tail = .identifier) :
  Ensures (Parse.funcStatement finish (n + 1)) l
    (fun s rest => s.Declaring N ∧ ∀ t ∈ rest, Counted N t) fun _ => True
  := by
  have htail : ∀ t ∈ l.tail, Counted N t := fun t ht => hl t (List.mem_of_mem_tail ht)
  rw [Parse.funcStatement, ensures_bind, ensures_here, ensures_bind, ensures_advance, ensures_bind,
    ensures_word, ensures_bind]
  have hfunction := ih.rule (.function (hereOf finish l)) trivial l.tail htail
  apply (hfunction.and (named_function _ hname)).mono _ fun _ h => h
  rintro e rest ⟨⟨he, hrest⟩, hnamed⟩
  exact (Yields.skipSemicolon.bind fun _ _ => .pure (Stmt.declaring_define hnamed he)) rest hrest

/-- A function has different parameters and a proper body. -/
theorem yields_function (pos : Position) :
  Yields (Counted N) (Parse.function finish (n + 1) pos) ((Rule.function pos).Allows N)
  := by
  have hrest (name : Option String) : Yields (Counted N) (do
      Parse.expect finish .leftParen .paramsStart
      let names ← Parse.params finish n
      Parse.expect finish .rightParen .paramsEnd
      let body ← Parse.block finish n
      return Expr.func pos name names body) ((Rule.function pos).Allows N) :=
    (Yields.expect _ _).bind fun _ _ => (ih.rule .params trivial).bind fun _ hnames =>
      (Yields.expect _ _).bind fun _ _ => (ih.rule .block trivial).bind fun _ hbody =>
      .pure ⟨hnames, hbody⟩
  rw [Parse.function]
  refine Yields.kind.bind fun _ _ => ?_
  split
  · rw [map_eq_pure_bind]
    exact ((Yields.identifier _).bind fun _ _ => .pure trivial).bind fun name (_ : True) =>
      hrest name
  · exact (Yields.pure trivial).bind fun name (_ : True) => hrest name

/-- A parameter that has been found before is an error. -/
theorem yields_paramNames {found : List String} (hfound : found.Nodup) :
  Yields (Counted N) (Parse.paramNames finish (n + 1) found) ((Rule.paramNames found).Allows N)
  := by
  rw [Parse.paramNames]
  refine Yields.here.bind fun _ _ => (Yields.identifier _).bind fun name _ => ?_
  split
  next => exact (Yields.raise _).bind fun _ (h : False) => h.elim
  next hmem =>
    have hmore : (found ++ [name]).Nodup := by
      rw [List.nodup_append]
      refine ⟨hfound, by simp, ?_⟩
      rintro x hx y hy rfl
      exact hmem (List.mem_singleton.mp hy ▸ hx)
    exact Yields.skipComma.bind fun _ _ => .ite (ih.rule (.paramNames _) hmore) (.pure hmore)

/-- The statements of a block are proper. -/
theorem yields_blockRest (start : Position) :
  Yields (Counted N) (Parse.blockRest finish (n + 1) start) ((Rule.blockRest start).Allows N)
  := by
  rw [Parse.blockRest]
  refine Yields.kind.bind fun k _ => ?_
  split
  · exact Yields.advance.bind fun _ _ => .pure trivial
  · exact .raise _
  · exact Yields.advance.bind fun _ _ => ih.rule (.blockRest _) trivial
  · exact (ih.rule .statement trivial).bind fun _ hs =>
      (ih.rule (.blockRest _) trivial).bind fun _ hrest => .pure ⟨hs, hrest⟩

/-- An operator joins two proper sides. -/
theorem yields_binaryRest (level : Nat) {left : Expr} (hleft : left.Everywhere (.proper N)) :
  Yields (Counted N) (Parse.binaryRest finish (n + 1) level left)
    ((Rule.binaryRest level left).Allows N)
  := by
  rw [Parse.binaryRest]
  refine Yields.kind.bind fun k _ =>
    .ite (.ite (.pure hleft) (ih.rule (.assignment _ _) hleft)) ?_
  split
  · exact .pure hleft
  · exact .ite (.pure hleft) (Yields.here.bind fun _ _ => Yields.advance.bind fun _ _ =>
      (ih.rule (.binary _) trivial).bind fun _ hright =>
      ih.rule (.binaryRest _ _) ⟨trivial, hleft, hright⟩)

/-- A value is assigned to a name, for all else is an error. -/
theorem yields_assignment (level : Nat) {left : Expr} :
  Yields (Counted N) (Parse.assignment finish (n + 1) level left)
    ((Rule.assignment level left).Allows N)
  := by
  rw [Parse.assignment]
  refine Yields.here.bind fun _ _ => Yields.advance.bind fun _ _ => ?_
  split
  · exact (ih.rule (.binary _) trivial).bind fun _ hvalue =>
      ih.rule (.binaryRest _ _) ⟨trivial, hvalue⟩
  · exact .raise _

/-- What is deleted is a name, and every other prefix stands in front of what is proper. -/
theorem yields_unary :
  Yields (Counted N) (Parse.unary finish (n + 1)) (Rule.unary.Allows N)
  := by
  rw [Parse.unary]
  refine Yields.here.bind fun _ _ => Yields.kind.bind fun k _ => ?_
  split
  next => exact ih.rule .suffixed trivial
  next =>
    exact Yields.advance.bind fun _ _ => (ih.rule (.binary _) trivial).bind fun _ he =>
      .pure ⟨trivial, he⟩
  next =>
    exact Yields.advance.bind fun _ _ => Yields.here.bind fun _ _ =>
      (Yields.identifier _).bind fun _ _ => .pure ⟨rfl, trivial⟩
  next op _ hdelete _ =>
    refine Yields.advance.bind fun _ _ => (ih.rule .unary trivial).bind fun e he => .pure ⟨?_, he⟩
    cases op
    case delete => exact absurd rfl hdelete
    all_goals trivial

/-- What is called and indexed is proper, and so are the arguments and the indices. -/
theorem yields_suffixes {e : Expr} (he : e.Everywhere (.proper N)) :
  Yields (Counted N) (Parse.suffixes finish (n + 1) e) ((Rule.suffixes e).Allows N)
  := by
  rw [Parse.suffixes]
  refine Yields.here.bind fun _ _ => Yields.kind.bind fun k _ => ?_
  split
  · exact Yields.advance.bind fun _ _ => (ih.rule (.expressions _) trivial).bind fun _ hargs =>
      (Yields.expect _ _).bind fun _ _ => ih.rule (.suffixes _) ⟨trivial, he, hargs⟩
  · exact Yields.advance.bind fun _ _ => (ih.rule (.binary _) trivial).bind fun _ hi =>
      (Yields.expect _ _).bind fun _ _ => ih.rule (.suffixes _) ⟨trivial, he, hi⟩
  · exact .pure he

/-- The expressions between commas are proper. -/
theorem yields_expressions (stop : TokenKind) :
  Yields (Counted N) (Parse.expressions finish (n + 1) stop) ((Rule.expressions stop).Allows N)
  := by
  rw [Parse.expressions]
  refine Yields.kind.bind fun _ _ => .ite (.pure trivial) ?_
  exact (ih.rule (.binary _) trivial).bind fun _ he => Yields.skipComma.bind fun _ _ =>
    .ite ((ih.rule (.expressions _) trivial).bind fun _ hrest => .pure ⟨he, hrest⟩)
      (.pure ⟨he, trivial⟩)

/-- A number literal is read at one token, whose position and text it keeps. -/
theorem yields_primary :
  Yields (Counted N) (Parse.primary finish (n + 1)) (Rule.primary.Allows N)
  := by
  intro l hl
  rw [Parse.primary, ensures_bind, ensures_here, ensures_bind, ensures_kind]
  split
  case h_1 hk =>
    rcases l with _ | ⟨t, l⟩
    · cases hk
    · obtain ⟨ht, hl⟩ := List.forall_mem_cons.mp hl
      exact ⟨ht hk, hl⟩
  case h_2 | h_6 =>
    exact (Yields.word.bind fun _ _ => Yields.advance.bind fun _ _ => .pure trivial) l hl
  case h_3 | h_4 | h_5 => exact (Yields.advance.bind fun _ _ => .pure trivial) l hl
  case h_7 =>
    exact (Yields.advance.bind fun _ _ => (ih.rule (.binary _) trivial).bind fun _ he =>
      (Yields.expect _ _).bind fun _ _ => .pure he) l hl
  case h_8 =>
    exact (Yields.advance.bind fun _ _ => (ih.rule (.expressions _) trivial).bind fun _ hes =>
      (Yields.expect _ _).bind fun _ _ => .pure ⟨trivial, hes⟩) l hl
  case h_9 =>
    exact (Yields.advance.bind fun _ _ => (ih.rule .hashEntries trivial).bind fun _ hentries =>
      (Yields.expect _ _).bind fun _ _ => .pure ⟨trivial, hentries⟩) l hl
  case h_10 => exact ih.rule .conditional trivial l hl
  case h_11 =>
    exact (Yields.advance.bind fun _ _ => (ih.rule (.condition _) trivial).bind fun _ htest =>
      (ih.rule .block trivial).bind fun _ hbody => .pure ⟨trivial, htest, hbody⟩) l hl
  case h_12 => exact (Yields.advance.bind fun _ _ => ih.rule (.function _) trivial) l hl
  case h_13 =>
    apply (ih.rule .decorated trivial l hl).mono _ fun _ h => h
    exact fun e rest h => ⟨(h.1 .start).everywhere.2, h.2⟩
  case h_14 => exact Yields.noExpression l hl

/-- The keys and values of the entries are proper. -/
theorem yields_hashEntries :
  Yields (Counted N) (Parse.hashEntries finish (n + 1)) (Rule.hashEntries.Allows N)
  := by
  rw [Parse.hashEntries]
  refine Yields.kind.bind fun _ _ => .ite (.pure trivial) ?_
  exact (ih.rule .hashKey trivial).bind fun _ hkey => (Yields.expect _ _).bind fun _ _ =>
    (ih.rule (.binary _) trivial).bind fun _ hvalue => Yields.skipComma.bind fun _ _ =>
    .ite ((ih.rule .hashEntries trivial).bind fun _ hrest => .pure ⟨hkey, hvalue, hrest⟩)
      (.pure ⟨hkey, hvalue, trivial⟩)

/-- A key is a text or a proper expression. -/
theorem yields_hashKey :
  Yields (Counted N) (Parse.hashKey finish (n + 1)) (Rule.hashKey.Allows N)
  := by
  rw [Parse.hashKey]
  refine Yields.kind.bind fun _ _ => Yields.secondKind.bind fun _ _ =>
    .ite ?_ (ih.rule (.binary _) trivial)
  exact Yields.here.bind fun _ _ => Yields.word.bind fun _ _ => Yields.advance.bind fun _ _ =>
    .pure trivial

/-- The condition and the branches of a conditional are proper. -/
theorem yields_conditional :
  Yields (Counted N) (Parse.conditional finish (n + 1)) (Rule.conditional.Allows N)
  := by
  rw [Parse.conditional]
  refine Yields.here.bind fun _ _ => Yields.advance.bind fun _ _ =>
    (ih.rule (.condition _) trivial).bind fun _ htest => (ih.rule .block trivial).bind fun _ hyes =>
    Yields.kind.bind fun _ _ => .ite ?_ (.pure ⟨trivial, htest, hyes⟩)
  refine Yields.advance.bind fun _ _ => Yields.kind.bind fun _ _ => .ite ?_ ?_
  · exact Yields.here.bind fun _ _ => (ih.rule .conditional trivial).bind fun _ hnested =>
      .pure ⟨trivial, htest, hyes, ⟨trivial, hnested⟩, trivial⟩
  · exact (ih.rule .block trivial).bind fun _ hno => .pure ⟨trivial, htest, hyes, hno⟩

/-- What is decorated is a declaration in turn. -/
theorem yields_decorated :
  Yields (Counted N) (Parse.decorated finish (n + 1)) (Rule.decorated.Allows N)
  := by
  rw [Parse.decorated]
  refine Yields.here.bind fun _ _ => Yields.advance.bind fun _ _ => Yields.here.bind fun _ _ =>
    (Yields.identifier _).bind fun _ _ => Yields.here.bind fun _ _ => Yields.kind.bind fun _ _ =>
    .ite ?_ ?_
  · exact Yields.advance.bind fun _ _ => (ih.rule (.expressions _) trivial).bind fun _ hargs =>
      (Yields.expect _ _).bind fun _ _ => (ih.rule .declaration trivial).bind fun _ hs =>
      .pure fun pos => hs.decorated
        (show (Expr.call _ (.name _ _) _).Everywhere _ from ⟨trivial, trivial, hargs⟩) pos _
  · exact (ih.rule .declaration trivial).bind fun _ hs =>
      .pure fun pos => hs.decorated (show (Expr.name _ _).Everywhere _ from trivial) pos _

/-- Behind a decorator stands a definition, a function with a name, or another decorator. -/
theorem yields_declaration :
  Yields (Counted N) (Parse.declaration finish (n + 1)) (Rule.declaration.Allows N)
  := by
  intro l hl
  rw [Parse.declaration, ensures_bind, ensures_kind]
  split
  · exact ih.rule .letStatement trivial l hl
  · rw [ensures_bind, ensures_secondKind]
    split
    next hname => exact ih.func l hl hname
    next => exact Yields.fail _ l hl
  · exact (Yields.here.bind fun pos _ => (ih.rule .decorated trivial).bind fun _ he =>
      .pure (he pos)) l hl
  · exact Yields.fail _ l hl

end

section

variable {finish : Position} {N : Position → Nat → Prop} {n : Nat}

/-- An import has nothing in it that could be improper. -/
theorem yields_useStatement :
  Yields (Counted N) (Parse.useStatement finish) (Rule.useStatement.Allows N)
  := by
  refine Yields.here.bind fun _ _ => Yields.advance.bind fun _ _ => Yields.kind.bind fun k _ => ?_
  split
  case h_3 => exact .unexpected _
  all_goals
    exact Yields.word.bind fun _ _ => Yields.advance.bind fun _ _ =>
      Yields.skipSemicolon.bind fun _ _ => .pure trivial

/-- Parameters are different from each other. -/
theorem yields_params
    (h : Yields (Counted N) (Parse.paramNames finish n []) ((Rule.paramNames []).Allows N)) :
  Yields (Counted N) (Parse.params finish n) (Rule.params.Allows N)
  := Yields.kind.bind fun _ _ => .ite (.pure List.nodup_nil) h

end

/-- All rules make of counted tokens only what they may. -/
theorem properWith (finish : Position) (N : Position → Nat → Prop) (n : Nat) :
  ProperWith finish N n
  := by
  induction n with
  | zero =>
      refine ⟨fun r _ => ?_, fun l _ _ => ?_⟩
      · by_cases hp : r = .params
        · subst hp
          exact yields_params (.fail _)
        by_cases hu : r = .useStatement
        · subst hu
          exact yields_useStatement
        rw [r.run_zero finish hp hu]
        exact .fail _
      · rw [Parse.funcStatement, ensures_fail]
        trivial
  | succ n ih =>
      refine ⟨fun r hr => ?_, fun l => yields_funcStatement ih⟩
      cases r with
      | statement => exact yields_statement ih
      | exprStatement =>
          exact Yields.here.bind fun _ _ => (ih.rule (.binary _) trivial).bind fun _ he =>
            Yields.skipSemicolon.bind fun _ _ => .pure ⟨trivial, he⟩
      | letStatement => exact yields_letStatement ih
      | returnStatement => exact yields_returnStatement ih
      | useStatement => exact yields_useStatement
      | funcStatement => exact hr.elim
      | function pos => exact yields_function ih pos
      | params => exact yields_params (yields_paramNames ih List.nodup_nil)
      | paramNames found => exact yields_paramNames ih hr
      | block =>
          exact Yields.here.bind fun _ _ => (Yields.expect _ _).bind fun _ _ =>
            ih.rule (.blockRest _) trivial
      | blockRest start => exact yields_blockRest ih start
      | binary level =>
          exact (ih.rule .unary trivial).bind fun _ hleft => ih.rule (.binaryRest _ _) hleft
      | binaryRest level left => exact yields_binaryRest ih level hr
      | assignment level left => exact yields_assignment ih level
      | unary => exact yields_unary ih
      | suffixed => exact (ih.rule .primary trivial).bind fun _ he => ih.rule (.suffixes _) he
      | suffixes e => exact yields_suffixes ih hr
      | expressions stop => exact yields_expressions ih stop
      | primary => exact yields_primary ih
      | hashEntries => exact yields_hashEntries ih
      | hashKey => exact yields_hashKey ih
      | condition keyword =>
          exact (Yields.expect _ _).bind fun _ _ => (ih.rule (.binary _) trivial).bind fun _ he =>
            (Yields.expect _ _).bind fun _ _ => .pure he
      | conditional => exact yields_conditional ih
      | decorated => exact yields_decorated ih
      | declaration => exact yields_declaration ih

/-- All statements that are kept of counted tokens are proper, whatever others fail. -/
theorem statements_proper {finish : Position} {N : Position → Nat → Prop} {fuel k : Nat}
    {l : List Token} (hl : ∀ t ∈ l, Counted N t) :
  Stmt.AllEverywhere (.proper N) (statements finish fuel k l).1
  := by
  induction k generalizing l with
  | zero => trivial
  | succ k ih =>
      rcases l with _ | ⟨t, ts⟩
      · trivial
      by_cases ht : t.kind = .semicolon
      · rw [statements_semicolon ht]
        exact ih (List.forall_mem_cons.mp hl).2
      · cases hrun : statement finish fuel (t :: ts) with
        | ok s rest =>
            have hs := (properWith finish N fuel).rule .statement trivial (t :: ts) hl
            unfold Ensures at hs
            simp only [hrun] at hs
            rw [statements_ok ht hrun]
            exact ⟨hs.1, ih hs.2⟩
        | error e rest =>
            have hrest : Leaves finish (t :: ts) (t :: ts) (statement finish fuel (t :: ts)) :=
              sitedWith fuel .statement trivial _ List.suffix_rfl List.suffix_rfl
            simp only [hrun] at hrest
            rw [statements_error ht hrun]
            exact ih fun u hu => hl u <| List.mem_cons_of_mem t <|
              (resumeAfter_suffix hrest.1).mem hu

end Parse

/-- All statements that are kept of a source text are proper, and `N` holds of their number literals
if it does of the number tokens of the text. -/
theorem Program.everywhere_parse {N : Position → Nat → Prop} {text : String} (file : String)
    (hN : ∀ t ∈ Source.tokens text, t.kind = .number →
      N t.position (Numeral.value t.text.toList)) :
  Stmt.AllEverywhere (.proper N) (Program.parse text file).1.statements
  := by
  rw [Program.parse_eq]
  exact Parse.statements_proper hN

end Scriptlet
