import Mathlib.Data.List.Chain
import Scriptlet.Proofs.Printing

/-!
# Chains of operators

What is parsed from names that are joined by binary operators without parentheses.  Nothing of such
a chain is lost, and no operator has an operand whose operator binds less tightly than itself.
Operators of one level group to the left, except that products group to the right.

A rule reads the links of a chain up to the first operator that binds less tightly than its level.
So it is the level of the rule that keeps an operand from taking in too much; what it has read
itself is at least as tight (`Climbed`).
-/

namespace Scriptlet

/-- An operator with the name behind it, each where it stands. -/
structure Link where
  /-- The operator. -/
  op : BinaryOp
  /-- The position of the operator. -/
  opPos : Position
  /-- The name behind it. -/
  name : String
  /-- The position of the name. -/
  pos : Position

/-- Names that are joined by binary operators, without parentheses. -/
structure Chain where
  /-- The first name. -/
  name : String
  /-- The position of the first name. -/
  pos : Position
  /-- The operators with the names behind them. -/
  links : List Link

/-- The tokens of an operator and the name behind it. -/
def Link.tokens (k : Link) : List Token :=
  [⟨k.op.kind, k.op.symbol, k.opPos⟩, ⟨.identifier, k.name, k.pos⟩]

/-- The tokens of a chain. -/
def Chain.tokens (c : Chain) : List Token :=
  ⟨.identifier, c.name, c.pos⟩ :: c.links.flatMap Link.tokens

/-- The tree in which each operator has all of the chain before it to its left. -/
def Chain.fromLeft (c : Chain) : Expr :=
  c.links.foldl (fun e k => .binary k.opPos k.op e (.name k.pos k.name)) (.name c.pos c.name)

/-! ### Trees of operators -/

namespace Expr

/-- The names and operators of a tree from left to right, if it is made of nothing else. -/
def chain? : Expr → Option Chain
  | .name pos x => some ⟨x, pos, []⟩
  | .binary pos op left right =>
    match left.chain?, right.chain? with
    | some c, some d => some { c with links := c.links ++ ⟨op, pos, d.name, d.pos⟩ :: d.links }
    | _, _ => none
  | _ => none

/-- The operator of which a tree is the application. -/
def operator? : Expr → Option BinaryOp
  | .binary _ op _ _ => some op
  | _ => none

/-- Whether `P` holds of each operator of a tree with those of its left and its right operand. -/
def Throughout (P : BinaryOp → Option BinaryOp → Option BinaryOp → Prop) : Expr → Prop
  | .binary _ op left right =>
    P op left.operator? right.operator? ∧ left.Throughout P ∧ right.Throughout P
  | _ => True

/-- What holds throughout a tree can be weakened. -/
theorem Throughout.imp {P Q : BinaryOp → Option BinaryOp → Option BinaryOp → Prop}
    (hPQ : ∀ op left right, P op left right → Q op left right) (e : Expr) (h : e.Throughout P) :
  e.Throughout Q
  := by
  cases e with
  | binary pos op left right =>
      obtain ⟨hop, hleft, hright⟩ := h
      exact ⟨hPQ _ _ _ hop, Throughout.imp hPQ left hleft, Throughout.imp hPQ right hright⟩
  | _ => exact trivial

end Expr

namespace BinaryOp

/-- Whether the operators of both operands bind at least as tightly as an operator itself. -/
def Loosest (op : BinaryOp) (left right : Option BinaryOp) : Prop :=
  (∀ o ∈ left, op.level ≤ o.level) ∧ ∀ o ∈ right, op.level ≤ o.level

/-- Whether the operator of the right operand has another level than an operator itself. -/
def GroupsLeft (op : BinaryOp) (_ right : Option BinaryOp) : Prop :=
  ∀ o ∈ right, o.level ≠ op.level

/-- Whether the operator of the right operand has another level than an operator itself or, for a
product, that of the left operand. -/
def Groups (op : BinaryOp) (left right : Option BinaryOp) : Prop :=
  if op.level = productLevel then ∀ o ∈ left, o.level ≠ op.level else op.GroupsLeft left right

/-- Whether the right operand is one that an operator takes in, and the left operand one that does
not take the operator in. -/
def Takes (op : BinaryOp) (left right : Option BinaryOp) : Prop :=
  (∀ o ∈ left, op.level < o.rightLevel) ∧ ∀ o ∈ right, op.rightLevel ≤ o.level

variable {op : BinaryOp} {left right : Option BinaryOp}

/-- No operator binds more tightly than a product. -/
theorem level_le (op : BinaryOp) :
  op.level ≤ productLevel
  := by
  cases op
  all_goals decide

/-- An operator is read from the token that it is written as. -/
@[simp] theorem ofToken?_kind (op : BinaryOp) :
  ofToken? op.kind = some op
  := by
  cases op
  all_goals rfl

/-- No operator is written as an assignment, a call or an index. -/
theorem kind_ne (op : BinaryOp) :
  op.kind ≠ .assign ∧ op.kind ≠ .leftParen ∧ op.kind ≠ .leftBracket
  := by
  cases op
  all_goals decide

/-- An operator that takes in what is allowed binds most loosely. -/
theorem Takes.loosest (h : op.Takes left right) :
  op.Loosest left right
  := by
  have hop := op.level_le
  constructor
  · intro o ho
    have := h.1 o ho
    unfold rightLevel at this
    omega
  · intro o ho
    have := h.2 o ho
    unfold rightLevel at this
    omega

/-- An operator that takes in what is allowed groups as its level does. -/
theorem Takes.groups (h : op.Takes left right) :
  op.Groups left right
  := by
  unfold Groups
  split
  next hproduct =>
    intro o ho hlevel
    have := h.1 o ho
    unfold rightLevel at this
    omega
  next hproduct =>
    intro o ho hlevel
    have := h.2 o ho
    have := op.level_le
    unfold rightLevel at *
    omega

end BinaryOp

/-! ### Reading a chain -/

namespace Parse

/-- Whether a chain cannot go on with the tokens that follow it. -/
structure EndsChain (l : List Token) : Prop where
  operator : BinaryOp.ofToken? (kindOf l) = none
  assign : kindOf l ≠ .assign
  paren : kindOf l ≠ .leftParen
  bracket : kindOf l ≠ .leftBracket

/-- Whether a tree is made of a chain up to the links `behind`, which start with an operator below
the level. -/
structure Climbed (level : Nat) (c : Chain) (e : Expr) (behind : List Link) : Prop where
  reading : ∃ front, c.links = front ++ behind ∧ e.chain? = some { c with links := front }
  nested : e.Throughout BinaryOp.Takes
  tight : ∀ o ∈ e.operator?, level ≤ o.level
  stop : ∀ k ∈ behind.head?, k.op.level < level

variable {finish : Position} {rest : List Token} {level n : Nat} {left : Expr} {links : List Link}

/-- Behind the links of a chain there is neither a call nor an index. -/
theorem kindOf_links (hrest : EndsChain rest) (links : List Link) :
  kindOf (links.flatMap Link.tokens ++ rest) ≠ .leftParen
    ∧ kindOf (links.flatMap Link.tokens ++ rest) ≠ .leftBracket
  := by
  cases links with
  | nil => exact ⟨hrest.paren, hrest.bracket⟩
  | cons k links => exact k.op.kind_ne.2

/-- A name alone is an operand if no call and no index follows. -/
theorem unary_name {x : String} {pos : Position} {l : List Token} (hn : 3 ≤ n)
    (hparen : kindOf l ≠ .leftParen) (hbracket : kindOf l ≠ .leftBracket) :
  Parse.unary finish n (⟨.identifier, x, pos⟩ :: l) = .ok (.name pos x) l
  := by
  obtain ⟨n, rfl⟩ : ∃ j, n = j + 3 := ⟨n - 3, by omega⟩
  have hsuffixes : Parse.suffixes finish (n + 1) (.name pos x) l = .ok (.name pos x) l := by
    rw [Parse.suffixes, here_bind, kind_bind]
    generalize kindOf l = k at hparen hbracket
    split
    · contradiction
    · contradiction
    · rfl
  exact hsuffixes

/-- An operand ends where an operator binds less tightly than the level. -/
theorem binaryRest_stop {k : Link} {l : List Token} (hk : k.op.level < level) :
  Parse.binaryRest finish (n + 1) level left (k.tokens ++ l) = .ok left (k.tokens ++ l)
  := by
  obtain ⟨hassign, -⟩ := k.op.kind_ne
  rw [Parse.binaryRest, kind_bind]
  simp only [Link.tokens, List.cons_append, kindOf_cons, hassign, BinaryOp.ofToken?_kind, hk,
    ↓reduceIte]
  rfl

/-- At the end of a chain an expression ends. -/
theorem binaryRest_end (hrest : EndsChain rest) :
  Parse.binaryRest finish (n + 1) level left rest = .ok left rest
  := by
  rw [Parse.binaryRest, kind_bind]
  simp only [hrest.assign, hrest.operator, ↓reduceIte]
  rfl

/-- An operator that binds tightly enough takes in its right operand, and what comes of it is gone
on with. -/
theorem binaryRest_link {k : Link} {l m : List Token} {right : Expr} (hk : level ≤ k.op.level)
    (h : Parse.binary finish n k.op.rightLevel (⟨.identifier, k.name, k.pos⟩ :: l) = .ok right m) :
  Parse.binaryRest finish (n + 1) level left (k.tokens ++ l)
    = Parse.binaryRest finish n level (.binary k.opPos k.op left right) m
  := by
  obtain ⟨hassign, -⟩ := k.op.kind_ne
  rw [Parse.binaryRest, kind_bind]
  simp only [Link.tokens, List.cons_append, List.nil_append, kindOf_cons, hassign,
    BinaryOp.ofToken?_kind, Nat.not_lt.mpr hk, ↓reduceIte, here_bind, hereOf_cons, advance_bind,
    List.tail_cons]
  exact bind_ok h

/-- Whether an operand that is made of a chain is gone on with as far as the level allows. -/
def GoesOn (finish : Position) (rest : List Token) (links : List Link) : Prop :=
  ∀ (level n : Nat) (left : Expr) (c : Chain), 2 * links.length + 3 ≤ n →
    Climbed level c left [] →
    (∀ o ∈ left.operator?, ∀ k ∈ links.head?, k.op.level < o.rightLevel) →
    ∃ e behind, Parse.binaryRest finish n level left (links.flatMap Link.tokens ++ rest)
        = .ok e (behind.flatMap Link.tokens ++ rest)
      ∧ Climbed level { c with links := c.links ++ links } e behind

/-- A name is an operand that is gone on with. -/
theorem GoesOn.binary (hrest : EndsChain rest) (h : GoesOn finish rest links) (x : String)
    (pos : Position) (level : Nat) (hn : 2 * links.length + 4 ≤ n) :
  ∃ e behind, Parse.binary finish n level
        (⟨.identifier, x, pos⟩ :: (links.flatMap Link.tokens ++ rest))
      = .ok e (behind.flatMap Link.tokens ++ rest)
    ∧ Climbed level ⟨x, pos, links⟩ e behind
  := by
  obtain ⟨n, rfl⟩ : ∃ j, n = j + 1 := ⟨n - 1, by omega⟩
  obtain ⟨hparen, hbracket⟩ := kindOf_links hrest links
  have hname : Climbed level ⟨x, pos, []⟩ (.name pos x) [] := by
    refine ⟨⟨[], rfl, rfl⟩, trivial, ?_, ?_⟩
    · rintro o ⟨⟩
    · rintro k ⟨⟩
  obtain ⟨e, behind, hrun, hclimbed⟩ := h level n _ _ (by omega) hname (by rintro o ⟨⟩)
  refine ⟨e, behind, ?_, hclimbed⟩
  rw [Parse.binary, bind_ok (unary_name (by omega) hparen hbracket)]
  exact hrun

/-- An operand with an operator and what it takes in behind it is made of the longer chain. -/
theorem Climbed.link {c : Chain} {k : Link} {right : Expr} {behind : List Link}
    (hleft : Climbed level c left []) (htakes : ∀ o ∈ left.operator?, k.op.level < o.rightLevel)
    (hk : level ≤ k.op.level)
    (hright : Climbed k.op.rightLevel ⟨k.name, k.pos, links⟩ right behind) :
  ∃ front, links = front ++ behind
    ∧ Climbed level { c with links := c.links ++ k :: front } (.binary k.opPos k.op left right) []
  := by
  obtain ⟨all, hall, hleftChain⟩ := hleft.reading
  rw [List.append_nil] at hall
  subst hall
  obtain ⟨front, rfl, hrightChain⟩ := hright.reading
  refine ⟨front, rfl, ⟨_, (List.append_nil _).symm, ?_⟩, ?_, ?_, ?_⟩
  · simp only [Expr.chain?, hleftChain, hrightChain]
  · exact ⟨⟨htakes, hright.tight⟩, hleft.nested, hright.nested⟩
  · rintro o ⟨⟩
    exact hk
  · rintro k ⟨⟩

/-- Every operand is gone on with: by induction on the number of links, of which the right operand
and what follows it are left with fewer. -/
theorem goesOn (hrest : EndsChain rest) (links : List Link) :
  GoesOn finish rest links
  := by
  induction hlength : links.length using Nat.strong_induction_on generalizing links with
  | _ length ih =>
      subst hlength
      intro level n left c hn hleft htakes
      obtain ⟨n, rfl⟩ : ∃ j, n = j + 1 := ⟨n - 1, by omega⟩
      rcases links with _ | ⟨k, links⟩
      · refine ⟨left, [], binaryRest_end hrest, ?_⟩
        rw [List.append_nil]
        exact hleft
      · have htokens : (k :: links).flatMap Link.tokens ++ rest
            = k.tokens ++ (links.flatMap Link.tokens ++ rest) := by
          simp
        simp only [List.length_cons] at hn ih
        rw [htokens]
        by_cases hk : k.op.level < level
        · -- The operator binds too loosely here and is left to an operand further out.
          refine ⟨left, k :: links, ?_, ?_, hleft.nested, hleft.tight, ?_⟩
          · rw [binaryRest_stop hk, htokens]
          · obtain ⟨front, hfront, hchain⟩ := hleft.reading
            rw [List.append_nil] at hfront
            exact ⟨front, by rw [hfront], hchain⟩
          · rintro _ ⟨⟩
            exact hk
        · have hlevel : level ≤ k.op.level := Nat.le_of_not_lt hk
          have hlinks : GoesOn finish rest links := ih links.length (by omega) links rfl
          -- The right operand takes in what binds tightly enough, and the rest is gone on with.
          obtain ⟨right, behind, hrun, hright⟩ :=
            hlinks.binary hrest k.name k.pos k.op.rightLevel (n := n) (by omega)
          obtain ⟨front, rfl, hclimbed⟩ :=
            hleft.link (fun o ho => htakes o ho k rfl) hlevel hright
          have hbehind : GoesOn finish rest behind :=
            ih behind.length (by simp only [List.length_append]; omega) behind rfl
          obtain ⟨e, behind', hrun', hclimbed'⟩ := hbehind level n _ _
            (by simp only [List.length_append] at hn; omega) hclimbed (by
              rintro o ⟨⟩
              exact hright.stop)
          refine ⟨e, behind', ?_, by simpa using hclimbed'⟩
          rw [binaryRest_link hlevel hrun]
          exact hrun'

/-- A whole chain is read where any operator is taken in. -/
theorem exists_climbed (hrest : EndsChain rest) (c : Chain) (hn : 2 * c.links.length + 4 ≤ n) :
  ∃ e, Parse.binary finish n assignLevel (c.tokens ++ rest) = .ok e rest
    ∧ e.chain? = some c ∧ e.Throughout BinaryOp.Takes
  := by
  obtain ⟨e, behind, hrun, hclimbed⟩ :=
    (goesOn hrest c.links).binary hrest c.name c.pos assignLevel hn
  obtain rfl : behind = [] := by
    rcases behind with _ | ⟨k, behind⟩
    · rfl
    · exact absurd (hclimbed.stop k rfl) (Nat.not_lt_zero _)
  obtain ⟨front, hfront, hchain⟩ := hclimbed.reading
  rw [List.append_nil] at hfront
  subst hfront
  exact ⟨e, hrun, hchain, hclimbed.nested⟩

/-- An expression that starts with a chain is all of the chain, in its order, and no operand of an
operator is the application of an operator that binds less tightly. -/
theorem binary_chain (finish : Position) (c : Chain) (rest : List Token) (hrest : EndsChain rest)
    (n : Nat) (hn : 2 * c.links.length + 4 ≤ n) :
  ∃ e, Parse.binary finish n assignLevel (c.tokens ++ rest) = .ok e rest
    ∧ e.chain? = some c ∧ e.Throughout BinaryOp.Loosest
  := by
  obtain ⟨e, hrun, hchain, hnested⟩ := exists_climbed hrest c hn
  exact ⟨e, hrun, hchain, Expr.Throughout.imp (fun _ _ _ => BinaryOp.Takes.loosest) e hnested⟩

/-- A chain of a product, a test for a member and a difference, in front of a semicolon. -/
theorem binary_chain_mixed :
  EndsChain [⟨.semicolon, ";", ⟨1, 15⟩⟩]
    ∧ ∃ e, Parse.binary ⟨1, 16⟩ 10 assignLevel
        ((⟨"a", ⟨1, 1⟩, [⟨.mul, ⟨1, 3⟩, "b", ⟨1, 5⟩⟩, ⟨.isIn, ⟨1, 7⟩, "c", ⟨1, 10⟩⟩,
            ⟨.sub, ⟨1, 12⟩, "d", ⟨1, 14⟩⟩]⟩ : Chain).tokens ++ [⟨.semicolon, ";", ⟨1, 15⟩⟩])
          = .ok e [⟨.semicolon, ";", ⟨1, 15⟩⟩]
      ∧ e.chain? = some ⟨"a", ⟨1, 1⟩, [⟨.mul, ⟨1, 3⟩, "b", ⟨1, 5⟩⟩, ⟨.isIn, ⟨1, 7⟩, "c", ⟨1, 10⟩⟩,
            ⟨.sub, ⟨1, 12⟩, "d", ⟨1, 14⟩⟩]⟩
      ∧ e.Throughout BinaryOp.Loosest
  := by
  have h : EndsChain [⟨.semicolon, ";", ⟨1, 15⟩⟩] := by
    constructor
    all_goals decide
  exact ⟨h, binary_chain _ _ _ h 10 (by decide)⟩

end Parse

/-! ### Products next to each other -/

/-- Whether no two links that follow each other are both products. -/
def Chain.ProductsApart (c : Chain) : Prop :=
  c.links.IsChain fun k k' => ¬ (k.op.level = productLevel ∧ k'.op.level = productLevel)

namespace Expr

variable {e left right : Expr} {c : Chain} {pos : Position} {op : BinaryOp}

/-- A tree that is made of a chain is made of those of its operands. -/
theorem chain?_binary :
  (binary pos op left right).chain? = some c
    ↔ ∃ front behind, left.chain? = some front ∧ right.chain? = some behind
      ∧ c = { front with
        links := front.links ++ ⟨op, pos, behind.name, behind.pos⟩ :: behind.links }
  := by
  simp only [chain?]
  cases left.chain? with
  | none => simp
  | some front =>
      cases right.chain? with
      | none => simp
      | some behind => simp [eq_comm]

/-- A tree without an operator is a single name. -/
theorem eq_name_of_operator? (hchain : e.chain? = some c) (h : e.operator? = none) :
  e = .name c.pos c.name ∧ c.links = []
  := by
  cases e with
  | name pos x =>
      cases hchain
      exact ⟨rfl, rfl⟩
  | binary => cases h
  | _ => cases hchain

/-- The operator of a tree is one of the chain that it is made of. -/
theorem exists_link_of_operator? {o : BinaryOp} (hchain : e.chain? = some c)
    (h : e.operator? = some o) :
  ∃ k ∈ c.links, k.op = o
  := by
  cases e with
  | binary pos op left right =>
      obtain ⟨front, behind, -, -, rfl⟩ := chain?_binary.mp hchain
      cases h
      exact ⟨_, List.mem_append_right _ List.mem_cons_self, rfl⟩
  | _ => cases h

/-- The operator of a tree binds no more tightly than any in it. -/
theorem Throughout.level_le (e : Expr) {c : Chain} (h : e.Throughout BinaryOp.Takes)
    (hchain : e.chain? = some c) :
  ∀ o ∈ e.operator?, ∀ k ∈ c.links, o.level ≤ k.op.level
  := by
  cases e with
  | binary pos op left right =>
      obtain ⟨front, behind, hfront, hbehind, rfl⟩ := chain?_binary.mp hchain
      obtain ⟨hop, hleft, hright⟩ := h
      have hpart {operand : Expr} {d : Chain} (hd : operand.chain? = some d)
          (hoperand : operand.Throughout BinaryOp.Takes)
          (hlevel : ∀ o ∈ operand.operator?, op.level ≤ o.level)
          (ih : ∀ o ∈ operand.operator?, ∀ k ∈ d.links, o.level ≤ k.op.level) :
          ∀ k ∈ d.links, op.level ≤ k.op.level := by
        intro k hk
        cases ho : operand.operator? with
        | none =>
            rw [(eq_name_of_operator? hd ho).2] at hk
            cases hk
        | some o => exact Nat.le_trans (hlevel o ho) (ih o ho k hk)
      rintro _ ⟨⟩ k hk
      rcases List.mem_append.mp hk with hk | hk
      · exact hpart hfront hleft hop.loosest.1 (Throughout.level_le left hleft hfront) k hk
      · rcases List.mem_cons.mp hk with rfl | hk
        · exact Nat.le_refl _
        · exact hpart hbehind hright hop.loosest.2 (Throughout.level_le right hright hbehind) k hk
  | _ => rintro o ⟨⟩

/-- The operator behind one that takes in its right operand is of the same level if and only if both
are products. -/
theorem groupsLeft_iff_head? {left : Option BinaryOp} (hright : right.Throughout BinaryOp.Takes)
    (hchain : right.chain? = some c) (hop : op.Takes left right.operator?) :
  op.GroupsLeft left right.operator?
    ↔ ∀ k ∈ c.links.head?, ¬ (op.level = productLevel ∧ k.op.level = productLevel)
  := by
  cases ho : right.operator? with
  | none =>
      rw [(eq_name_of_operator? hchain ho).2]
      exact iff_of_true (by rintro o ⟨⟩) (by rintro k ⟨⟩)
  | some o =>
      obtain ⟨k, hk⟩ : ∃ k, c.links.head? = some k := by
        obtain ⟨k, hk, -⟩ := exists_link_of_operator? hchain ho
        exact ⟨_, List.head?_eq_some_head (List.ne_nil_of_mem hk)⟩
      have htakes : op.rightLevel ≤ o.level := hop.2 o ho
      have hle : o.level ≤ k.op.level :=
        Throughout.level_le right hright hchain o ho k (List.mem_of_mem_head? hk)
      have hop := op.level_le
      have hk' := k.op.level_le
      have ho' := o.level_le
      rw [hk]
      simp only [BinaryOp.GroupsLeft, Option.mem_some_iff, forall_eq']
      unfold BinaryOp.rightLevel at htakes
      omega

/-- Operators of one level all group to the left in a tree if and only if no two products stand next
to each other: where they do, the first one takes in the second one. -/
theorem Throughout.groupsLeft_iff (e : Expr) {c : Chain} (h : e.Throughout BinaryOp.Takes)
    (hchain : e.chain? = some c) :
  e.Throughout BinaryOp.GroupsLeft ↔ c.ProductsApart
  := by
  cases e with
  | name pos x =>
      cases hchain
      exact iff_of_true trivial .nil
  | binary pos op left right =>
      obtain ⟨front, behind, hfront, hbehind, rfl⟩ := chain?_binary.mp hchain
      obtain ⟨hop, hleft, hright⟩ := h
      -- An operator below a product would have let the left operand go on with it.
      have hlast (k : Link) : k ∈ front.links.getLast? →
          ¬ (k.op.level = productLevel ∧ op.level = productLevel) := by
        rintro hk ⟨-, hproduct⟩
        cases ho : left.operator? with
        | none =>
            rw [(eq_name_of_operator? hfront ho).2] at hk
            cases hk
        | some o =>
            have := hop.1 o ho
            unfold BinaryOp.rightLevel at this
            omega
      simp only [Throughout, Chain.ProductsApart, List.isChain_append, List.isChain_cons,
        List.head?_cons, Option.mem_some_iff, forall_eq']
      rw [Throughout.groupsLeft_iff left hleft hfront,
        Throughout.groupsLeft_iff right hright hbehind, groupsLeft_iff_head? hright hbehind hop]
      unfold Chain.ProductsApart
      tauto
  | _ => cases hchain

/-- A tree of operators of a single level that group to the left has all of the chain before an
operator to its left. -/
theorem Throughout.eq_fromLeft (e : Expr) {c : Chain} {level : Nat}
    (h : e.Throughout BinaryOp.GroupsLeft) (hchain : e.chain? = some c)
    (hlevel : ∀ k ∈ c.links, k.op.level = level) :
  e = c.fromLeft
  := by
  cases e with
  | name pos x =>
      cases hchain
      rfl
  | binary pos op left right =>
      obtain ⟨front, behind, hfront, hbehind, rfl⟩ := chain?_binary.mp hchain
      obtain ⟨hop, hleft, -⟩ := h
      have hright : right.operator? = none := by
        by_contra ho
        obtain ⟨o, ho⟩ := Option.ne_none_iff_exists'.mp ho
        obtain ⟨k, hk, rfl⟩ := exists_link_of_operator? hbehind ho
        apply hop _ ho
        rw [hlevel k (by simp [hk]), hlevel ⟨op, pos, _, _⟩ (List.mem_append_right _
          List.mem_cons_self)]
      obtain ⟨rfl, hnil⟩ := eq_name_of_operator? hbehind hright
      rw [Throughout.eq_fromLeft left hleft hfront
        (fun k hk => hlevel k (List.mem_append_left _ hk)), hnil]
      simp [Chain.fromLeft]
  | _ => cases hchain

end Expr

/-! ### The text of a chain -/

namespace Program

/-- The text of a chain is parsed as one expression statement. -/
theorem exists_parse_chain {text : String} {c : Chain} (file : String)
    (h : Source.tokens text = c.tokens) :
  ∃ e, Program.parse text file = (⟨[.expr c.pos e], file⟩, [])
    ∧ e.chain? = some c ∧ e.Throughout BinaryOp.Takes
  := by
  have hend : Parse.EndsChain [] := by
    constructor
    all_goals decide
  have hlength : c.tokens.length = 2 * c.links.length + 1 := by
    simp [Chain.tokens, Link.tokens, Nat.mul_comm]
  obtain ⟨e, hrun, hchain, hnested⟩ : ∃ e, Parse.binary (Source.finish text)
      (10 * c.tokens.length + 8) assignLevel (c.tokens ++ []) = .ok e []
      ∧ e.chain? = some c ∧ e.Throughout BinaryOp.Takes :=
    Parse.exists_climbed hend c (by omega)
  rw [List.append_nil] at hrun
  have hparse := Parse.parseTokens_expr (l := c.tokens) rfl rfl hrun
  refine ⟨e, ?_, hchain, hnested⟩
  rw [Program.parse_eq, h, hparse]
  rfl

/-- The text of a chain is parsed as all of the chain in its order.  Operators of one level group to
the left, except that products group to the right: so they all group to the left if and only if no
two products stand next to each other. -/
theorem parse_chain (text file : String) (c : Chain) (h : Source.tokens text = c.tokens) :
  ∃ e, Program.parse text file = (⟨[.expr c.pos e], file⟩, [])
    ∧ e.chain? = some c
    ∧ e.Throughout BinaryOp.Groups
    ∧ (e.Throughout BinaryOp.GroupsLeft ↔ c.ProductsApart)
    ∧ ∀ level ≠ productLevel, (∀ k ∈ c.links, k.op.level = level) → e = c.fromLeft
  := by
  obtain ⟨e, hparse, hchain, hnested⟩ := exists_parse_chain file h
  refine ⟨e, hparse, hchain, Expr.Throughout.imp (fun _ _ _ => BinaryOp.Takes.groups) e hnested,
    Expr.Throughout.groupsLeft_iff e hnested hchain, ?_⟩
  intro level hproduct hlevel
  have happart : c.ProductsApart := by
    apply List.Pairwise.isChain
    apply List.pairwise_of_forall_mem_list
    rintro k hk k' - ⟨hk', -⟩
    exact hproduct ((hlevel k hk).symm.trans hk')
  exact Expr.Throughout.eq_fromLeft e
    ((Expr.Throughout.groupsLeft_iff e hnested hchain).mpr happart) hchain hlevel

/-- A text of sums, which group to the left. -/
theorem parse_chain_sums :
  Source.tokens "a - b + c"
      = (⟨"a", ⟨1, 1⟩, [⟨.sub, ⟨1, 3⟩, "b", ⟨1, 5⟩⟩, ⟨.add, ⟨1, 7⟩, "c", ⟨1, 9⟩⟩]⟩ : Chain).tokens
    ∧ Program.parse "a - b + c" "s"
      = (⟨[.expr ⟨1, 1⟩ (.binary ⟨1, 7⟩ .add
          (.binary ⟨1, 3⟩ .sub (.name ⟨1, 1⟩ "a") (.name ⟨1, 5⟩ "b")) (.name ⟨1, 9⟩ "c"))],
        "s"⟩, [])
  := by
  have h : Source.tokens "a - b + c" = (⟨"a", ⟨1, 1⟩, [⟨.sub, ⟨1, 3⟩, "b", ⟨1, 5⟩⟩,
      ⟨.add, ⟨1, 7⟩, "c", ⟨1, 9⟩⟩]⟩ : Chain).tokens := by
    decide +kernel
  obtain ⟨e, hparse, -, -, -, hlevel⟩ := parse_chain "a - b + c" "s" _ h
  obtain rfl := hlevel 4 (by decide) (by decide)
  exact ⟨h, hparse⟩

/-- A text of quotients, of which one has another as its right operand. -/
theorem exists_not_parse_chain :
  ∃ (text : String) (c : Chain) (e : Expr), Source.tokens text = c.tokens
    ∧ Program.parse text "s" = (⟨[.expr c.pos e], "s"⟩, [])
    ∧ ¬ e.Throughout BinaryOp.GroupsLeft
  := by
  have h : Source.tokens "a / b / c" = (⟨"a", ⟨1, 1⟩, [⟨.div, ⟨1, 3⟩, "b", ⟨1, 5⟩⟩,
      ⟨.div, ⟨1, 7⟩, "c", ⟨1, 9⟩⟩]⟩ : Chain).tokens := by
    decide +kernel
  obtain ⟨e, hparse, hchain, hnested⟩ := exists_parse_chain "s" h
  refine ⟨_, _, e, h, hparse, ?_⟩
  rw [Expr.Throughout.groupsLeft_iff e hnested hchain, Chain.ProductsApart]
  decide

end Program

end Scriptlet
