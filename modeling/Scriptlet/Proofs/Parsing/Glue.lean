import Scriptlet.Proofs.Parsing.Fuel
import Scriptlet.Proofs.Parsing.Statements

/-!
# Gluing

Where a decorated declaration has read the last semicolon, an opening parenthesis or bracket or a
minus behind it goes on with the expression that ends in the declaration.  What comes of it has
more operations than that expression, so it is a different one.
-/

namespace Scriptlet

mutual

/-- The number of operations of an expression, without those in its arguments, its elements and
its blocks. -/
def Expr.operations : Expr → Nat
  | .unary _ _ operand => operand.operations + 1
  | .binary _ _ left right => left.operations + right.operations + 1
  | .call _ callee _ => callee.operations + 1
  | .index _ collection _ => collection.operations + 1
  | .assign _ _ value => value.operations + 1
  | .decorated _ _ declaration => declaration.operations + 1
  | _ => 0

/-- The number of operations of the expression that a statement ends in. -/
def Stmt.operations : Stmt → Nat
  | .define _ _ value => value.operations
  | .ret _ (some value) => value.operations
  | .expr _ value => value.operations
  | _ => 0

end

mutual

/-- An expression with its positions moved has as many operations. -/
@[simp] theorem Expr.operations_map (f : Position → Position) (g : Nat → Nat) (e : Expr) :
  (e.map f g).operations = e.operations
  := by
  cases e with
  | cond pos test yes no =>
      cases no with
      | none => simp [Expr.map, Expr.operations]
      | some no => simp [Expr.map, Expr.operations]
  | unary pos op operand =>
      simp [Expr.map, Expr.operations, Expr.operations_map f g operand]
  | binary pos op left right =>
      simp [Expr.map, Expr.operations, Expr.operations_map f g left,
        Expr.operations_map f g right]
  | call pos callee args => simp [Expr.map, Expr.operations, Expr.operations_map f g callee]
  | index pos collection i =>
      simp [Expr.map, Expr.operations, Expr.operations_map f g collection]
  | assign pos x value => simp [Expr.map, Expr.operations, Expr.operations_map f g value]
  | decorated pos decorator declaration =>
      simp [Expr.map, Expr.operations, Stmt.operations_map f g declaration]
  | _ => simp [Expr.map, Expr.operations]

/-- A statement with its positions moved has as many operations. -/
@[simp] theorem Stmt.operations_map (f : Position → Position) (g : Nat → Nat) (s : Stmt) :
  (s.map f g).operations = s.operations
  := by
  rcases s with ⟨pos, x, value⟩ | ⟨pos, _ | value⟩ | ⟨pos, value⟩ | ⟨pos, body⟩ | ⟨pos, unit⟩
  · simp [Stmt.map, Stmt.operations, Expr.operations_map f g value]
  · simp [Stmt.map, Stmt.operations]
  · simp [Stmt.map, Stmt.operations, Expr.operations_map f g value]
  · simp [Stmt.map, Stmt.operations, Expr.operations_map f g value]
  · simp [Stmt.map, Stmt.operations]
  · simp [Stmt.map, Stmt.operations]

end

/-- An expression that is given a name has as many operations. -/
@[simp] theorem Expr.operations_named (name : String) (e : Expr) :
  (e.named name).operations = e.operations
  := by
  rcases e with _ | _ | _ | _ | _ | _ | _ | _ | _ | ⟨_, _ | _, _, _⟩ | _ | _ | _ | _ | _ | _
  all_goals rfl

namespace Parse

namespace Rule

variable {finish : Position} {n : Nat}

/-! ### What stands behind a rule -/

/-- A rule whose positions stay is the rule. -/
@[simp] theorem runMoved_id (r : Rule) :
  r.runMoved id finish n = r.run finish n
  := by
  cases r
  case binaryRest level left =>
    show Parse.binaryRest finish n level (left.map id id) = _
    rw [Expr.map_id]
  case assignment level left =>
    show Parse.assignment finish n level (left.map id id) = _
    rw [Expr.map_id]
  case suffixes e =>
    show Parse.suffixes finish n (e.map id id) = _
    rw [Expr.map_id]
  all_goals rfl

/-- What a rule makes stays with its positions. -/
@[simp] theorem moved_id (r : Rule) (a : r.Result) :
  r.moved id a = a
  := by
  cases r
  all_goals simp [Expr.mapAll_id]

/-- Whether tokens end in a semicolon and close what they open. -/
structure Whole (l : List Token) : Prop where
  terminated : Terminated l
  closed : ∀ s, s <:+ l → 0 ≤ excess s

/-- What is left of such tokens, if anything, is such tokens. -/
theorem Whole.suffix {l m : List Token} (h : Whole l) (hml : m <:+ l) (hm : m ≠ []) :
  Whole m
  where
  terminated := h.terminated.suffix hml hm
  closed := fun s hs => h.closed s (hs.trans hml)

/-- Where no semicolon stands first, what may stand behind the first run is `v`. -/
theorem ends_followedBy {v m : List Token} (hv : kindOf v ≠ .semicolon)
    (hm : (Change.followedBy v finish finish).ends m) :
  m = v
  := by
  obtain ⟨p, rfl, hp⟩ := hm
  rcases p with _ | ⟨t, p⟩
  · rfl
  · exact absurd (hp t List.mem_cons_self) hv

/-- The tokens with `v` behind them are those that correspond to the tokens. -/
theorem along_followedBy_iff {v l m : List Token} (hv : kindOf v ≠ .semicolon) :
  Along (.followedBy v finish finish) l m ↔ m = l ++ v
  := by
  constructor
  · intro h
    induction h with
    | ends hm => exact ends_followedBy hv hm
    | cons t h ih =>
        rw [ih]
        rfl
  · rintro rfl
    exact along_followedBy finish finish l v

/-- What a rule makes of its tokens does not depend on what stands behind those it leaves. -/
theorem ok_append {r : Rule} {s v m m' : List Token} {a b : r.Result}
    (hv : kindOf v ≠ .semicolon) (hw : Whole s) (hs : r.Starts s) (hb : r.closes ≤ excess s)
    (h : r.run finish n s = .ok a m) (h' : r.run finish n (s ++ v) = .ok b m') (hm : m ≠ []) :
  b = a ∧ m' = m ++ v
  := by
  have hle := Nat.le_max_left n (10 * s.length + 10)
  have hfuel := Nat.le_max_right n (10 * s.length + 10)
  have hN := extends_of_le hle r s a m h
  have hN' := extends_of_le hle r (s ++ v) b m' h'
  generalize max n (10 * s.length + 10) = N at hfuel hN hN'
  have hnil : s ≠ [] := by
    rintro rfl
    exact not_terminated_nil hw.terminated
  have track : Track (.followedBy v finish finish) s N N 10 s (s ++ v) := {
    along := along_followedBy finish finish s v
    suffix := List.suffix_rfl
    live := .inl hnil
    fit := .inr (.inr hw.terminated)
    closed := .inr hw.closed
    fuel := hfuel
    fuel' := hfuel }
  have hrank : Nat.blt r.rank 10 = true := by
    cases r
    all_goals rfl
  have hf := simulated _ N N r s 10 s (s ++ v) track hrank hs (.inr (.inr hnil)) (.inr hb)
  unfold Follows at hf
  simp only [Change.followedBy, hN] at hf
  obtain ⟨rest', hrun, ha⟩ := hf (.inl hm)
  rw [runMoved_id, hN', moved_id] at hrun
  cases hrun
  exact ⟨rfl, (along_followedBy_iff hv).mp ha⟩

/-! ### Rules that end in a brace -/

/-- Behind a token in front of the last semicolon there is a token. -/
theorem tail_ne_nil {l : List Token} (hl : Terminated l) (hk : kindOf l ≠ .semicolon) :
  l.tail ≠ []
  := by
  rcases l with _ | ⟨t, _ | ⟨u, l⟩⟩
  · exact absurd hl not_terminated_nil
  · exact absurd ((terminated_singleton t).mp hl) hk
  · rintro ⟨⟩

/-- Behind a token in front of the last semicolon, the last token is that semicolon. -/
theorem terminated_tail {l : List Token} (hl : Terminated l) (hk : kindOf l ≠ .semicolon) :
  Terminated l.tail
  := hl.suffix (List.tail_suffix l) (tail_ne_nil hl hk)

/-- What is left in front of the last semicolon ends in it. -/
theorem terminated_of_kind {l m : List Token} (hl : Terminated l) (hm : m <:+ l)
    (hk : kindOf m ≠ .eof) :
  Terminated m
  := by
  apply hl.suffix hm
  rintro rfl
  exact hk rfl

/-- The end of a block is not the last semicolon. -/
theorem blockRest_ne_nil {start : Position} {l m : List Token} {body : List Stmt}
    (h : Parse.blockRest finish n start l = .ok body m) (hl : Terminated l) :
  m ≠ []
  := by
  induction n generalizing l m body with
  | zero => exact absurd h (Ensures.not_ok (E := fun _ => True) (by simp [Parse.blockRest]) _ _)
  | succ n ih =>
      have again {l' : List Token} {body : List Stmt} (hl' : l' <:+ l)
          (h : Parse.blockRest finish n start l' = .ok body m) :
        m ≠ []
        := by
        have hlen : m.length + 1 ≤ l'.length :=
          (spans_of_ok (r := blockRest start) trivial h).least
        apply ih h (hl.suffix hl' _)
        rintro rfl
        simp at hlen
      rw [Parse.blockRest, kind_bind] at h
      generalize hk : kindOf l = k at h
      split at h
      next =>
        rw [advance_bind] at h
        cases h
        exact tail_ne_nil hl (by simp [hk])
      · cases h
      next =>
        rw [advance_bind] at h
        exact again (List.tail_suffix l) h
      next =>
        obtain ⟨s, l', hs, h⟩ := bind_eq_ok.mp h
        obtain ⟨rest, m', hrest, h⟩ := bind_eq_ok.mp h
        cases h
        exact again (spans_of_ok (r := statement) trivial hs).suffix hrest

/-- A block leaves the last semicolon. -/
theorem block_ne_nil {l m : List Token} {body : List Stmt}
    (h : Parse.block finish n l = .ok body m) (hl : Terminated l) :
  m ≠ []
  := by
  cases n with
  | zero => exact absurd h (Ensures.not_ok (E := fun _ => True) (by simp [Parse.block]) _ _)
  | succ n =>
      rw [Parse.block, here_bind, expect_bind_eq_ok] at h
      obtain ⟨hk, h⟩ := h
      exact blockRest_ne_nil h (terminated_tail hl (by simp [hk]))

/-- A function literal leaves the last semicolon. -/
theorem function_ne_nil {pos : Position} {l m : List Token} {e : Expr}
    (h : Parse.function finish n pos l = .ok e m) (hl : Terminated l) :
  m ≠ []
  := by
  cases n with
  | zero => exact absurd h (Ensures.not_ok (E := fun _ => True) (by simp [Parse.function]) _ _)
  | succ n =>
      have key {l : List Token} (name : Option String) (hl : Terminated l)
          (h : (do
            expect finish .leftParen .paramsStart
            let names ← Parse.params finish n
            expect finish .rightParen .paramsEnd
            return Expr.func pos name names (← Parse.block finish n)) l = .ok e m) :
        m ≠ []
        := by
        obtain ⟨hk, h⟩ := expect_bind_eq_ok.mp h
        obtain ⟨names, l', hnames, h⟩ := bind_eq_ok.mp h
        obtain ⟨hk', h⟩ := expect_bind_eq_ok.mp h
        obtain ⟨body, m', hbody, h⟩ := bind_eq_ok.mp h
        cases h
        have hl := terminated_tail hl (by simp [hk])
        have hl' := terminated_of_kind hl (spans_of_ok (r := params) trivial hnames).suffix
          (by simp [hk'])
        exact block_ne_nil hbody (terminated_tail hl' (by simp [hk']))
      rw [Parse.function, kind_bind] at h
      by_cases hk : kindOf l = .identifier
      · simp only [hk, ↓reduceIte, map_eq_pure_bind, bind_assoc, pure_bind] at h
        obtain ⟨-, h⟩ := identifier_bind_eq_ok.mp h
        exact key (some _) (terminated_tail hl (by simp [hk])) h
      · simp only [hk, ↓reduceIte, pure_bind] at h
        exact key none hl h

/-- A conditional leaves the last semicolon. -/
theorem conditional_ne_nil {l m : List Token} {e : Expr}
    (h : Parse.conditional finish n l = .ok e m) (hs : kindOf l = .ifWord) (hl : Terminated l) :
  m ≠ []
  := by
  induction n generalizing l m e with
  | zero => exact absurd h (Ensures.not_ok (E := fun _ => True) (by simp [Parse.conditional]) _ _)
  | succ n ih =>
      rw [Parse.conditional, here_bind, advance_bind] at h
      have hl := terminated_tail hl (by simp [hs])
      obtain ⟨test, l₁, htest, h⟩ := bind_eq_ok.mp h
      obtain ⟨yes, l₂, hyes, h⟩ := bind_eq_ok.mp h
      have hsuffix := (spans_of_ok (r := condition _) trivial htest).suffix
      have hlen : l₂.length + 1 ≤ l₁.length := (spans_of_ok (r := block) trivial hyes).least
      have hl₁ : Terminated l₁ := by
        apply hl.suffix hsuffix
        rintro rfl
        simp at hlen
      have hl₂ := hl₁.suffix (spans_of_ok (r := block) trivial hyes).suffix
        (block_ne_nil hyes hl₁)
      rw [kind_bind] at h
      by_cases hk : kindOf l₂ = .elseWord
      · simp only [hk, ↓reduceIte, advance_bind, kind_bind] at h
        have hl₃ := terminated_tail hl₂ (by simp [hk])
        by_cases hk' : kindOf l₂.tail = .ifWord
        · simp only [hk', ↓reduceIte, here_bind] at h
          obtain ⟨nested, m', hnested, h⟩ := bind_eq_ok.mp h
          cases h
          exact ih hnested hk' hl₃
        · simp only [hk', ↓reduceIte] at h
          obtain ⟨no, m', hno, h⟩ := bind_eq_ok.mp h
          cases h
          exact block_ne_nil hno hl₃
      · simp only [hk, ↓reduceIte] at h
        cases h
        exact block_ne_nil hyes hl₁

/-! ### What is gone on with -/

/-- What an expression is gone on with has its operations and more. -/
theorem suffixes_grow {e a : Expr} {l m : List Token}
    (h : Parse.suffixes finish n e l = .ok a m) :
  e.operations ≤ a.operations
    ∧ (kindOf l = .leftParen ∨ kindOf l = .leftBracket → e.operations < a.operations)
    ∧ (kindOf l ≠ .leftParen ∧ kindOf l ≠ .leftBracket → a = e ∧ m = l)
  := by
  induction n generalizing e l with
  | zero => exact absurd h (Ensures.not_ok (E := fun _ => True) (by simp [Parse.suffixes]) _ _)
  | succ n ih =>
      rw [Parse.suffixes, here_bind, kind_bind] at h
      generalize hk : kindOf l = k at h ⊢
      split at h
      · rw [advance_bind] at h
        obtain ⟨args, l₁, hargs, h⟩ := bind_eq_ok.mp h
        obtain ⟨-, h⟩ := expect_bind_eq_ok.mp h
        have := (ih h).1
        simp only [Expr.operations] at this
        simp
        omega
      · rw [advance_bind] at h
        obtain ⟨i, l₁, hi, h⟩ := bind_eq_ok.mp h
        obtain ⟨-, h⟩ := expect_bind_eq_ok.mp h
        have := (ih h).1
        simp only [Expr.operations] at this
        simp
        omega
      next hparen hbracket =>
        cases h
        refine ⟨Nat.le_refl _, fun hk => ?_, fun _ => ⟨rfl, rfl⟩⟩
        exact absurd hk (not_or.mpr ⟨hparen, hbracket⟩)

/-- What a left operand is gone on with has its operations and more. -/
theorem binaryRest_grow {level : Nat} {left a : Expr} {l m : List Token}
    (h : Parse.binaryRest finish n level left l = .ok a m) :
  left.operations ≤ a.operations
    ∧ (kindOf l = .minus → level ≤ 4 → left.operations < a.operations)
    ∧ (kindOf l = .eof ∨ kindOf l = .minus ∧ 4 < level → a = left ∧ m = l)
  := by
  induction n generalizing level left l with
  | zero => exact absurd h (Ensures.not_ok (E := fun _ => True) (by simp [Parse.binaryRest]) _ _)
  | succ n ih =>
      rw [Parse.binaryRest, kind_bind] at h
      by_cases hk : kindOf l = .assign
      · simp only [hk, ↓reduceIte] at h ⊢
        by_cases hlevel : assignLevel < level
        · simp only [hlevel, ↓reduceIte] at h
          cases h
          simp
        · simp only [hlevel, ↓reduceIte] at h
          cases n with
          | zero =>
              exact absurd h
                (Ensures.not_ok (E := fun _ => True) (by simp [Parse.assignment]) _ _)
          | succ n =>
              rw [Parse.assignment, here_bind, advance_bind] at h
              -- Only a name can be assigned to, and it has no operations.
              cases left with
              | name pos x => simp [Expr.operations]
              | _ => cases h
      · simp only [hk, ↓reduceIte] at h
        cases hop : BinaryOp.ofToken? (kindOf l) with
        | none =>
            simp only [hop] at h
            cases h
            refine ⟨Nat.le_refl _, fun hminus => ?_, fun _ => ⟨rfl, rfl⟩⟩
            rw [hminus] at hop
            cases hop
        | some op =>
            simp only [hop] at h
            have hminus : kindOf l = .minus → op.level = 4 := by
              intro hminus
              rw [hminus] at hop
              cases hop
              rfl
            have heof : kindOf l ≠ .eof := by
              intro heof
              rw [heof] at hop
              cases hop
            by_cases hlevel : op.level < level
            · simp only [hlevel, ↓reduceIte] at h
              cases h
              refine ⟨Nat.le_refl _, fun hk' => ?_, fun _ => ⟨rfl, rfl⟩⟩
              have := hminus hk'
              omega
            · simp only [hlevel, ↓reduceIte, here_bind, advance_bind] at h
              obtain ⟨right, l₁, hright, h⟩ := bind_eq_ok.mp h
              have := (ih h).1
              simp only [Expr.operations] at this
              refine ⟨by omega, fun _ _ => by omega, ?_⟩
              rintro (hk' | ⟨hk', hl⟩)
              · contradiction
              · have := hminus hk'
                omega

/-- Calls and indices leave the last semicolon. -/
theorem suffixes_ne_nil {e a : Expr} {l m : List Token}
    (h : Parse.suffixes finish n e l = .ok a m) (hl : Terminated l) :
  m ≠ []
  := by
  induction n generalizing e l with
  | zero => exact absurd h (Ensures.not_ok (E := fun _ => True) (by simp [Parse.suffixes]) _ _)
  | succ n ih =>
      -- The token in front of what is gone on with closes a parenthesis or a bracket.
      have again {e : Expr} {l₁ : List Token} (hsuffix : l₁ <:+ l) {k : TokenKind}
          (hk : kindOf l₁ = k) (heof : k ≠ .eof) (hsemi : k ≠ .semicolon)
          (h : Parse.suffixes finish n e l₁.tail = .ok a m) :
        m ≠ []
        := by
        have hl₁ := terminated_of_kind hl hsuffix (by rwa [hk])
        exact ih h (terminated_tail hl₁ (by rwa [hk]))
      rw [Parse.suffixes, here_bind, kind_bind] at h
      generalize kindOf l = k at h
      split at h
      · rw [advance_bind] at h
        obtain ⟨args, l₁, hargs, h⟩ := bind_eq_ok.mp h
        obtain ⟨hk, h⟩ := expect_bind_eq_ok.mp h
        have hspans := spans_of_ok (r := expressions .rightParen) (.inl rfl) hargs
        exact again (hspans.suffix.trans (List.tail_suffix l)) hk (by rintro ⟨⟩) (by rintro ⟨⟩) h
      · rw [advance_bind] at h
        obtain ⟨i, l₁, hi, h⟩ := bind_eq_ok.mp h
        obtain ⟨hk, h⟩ := expect_bind_eq_ok.mp h
        have hspans := spans_of_ok (r := binary assignLevel) trivial hi
        exact again (hspans.suffix.trans (List.tail_suffix l)) hk (by rintro ⟨⟩) (by rintro ⟨⟩) h
      · cases h
        rintro rfl
        exact not_terminated_nil hl

end Rule

end Parse

end Scriptlet
