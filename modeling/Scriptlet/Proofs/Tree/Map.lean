import Mathlib.Tactic.Common
import Scriptlet.Token
import Scriptlet.Tree

/-!
# Tokens and trees with other positions and numbers

The token that has `f p` where a token has the position `p`.  The tree that has `f p` where a tree
has the position `p`, and `g n` where it has the number `n`.  Two trees are equal up to positions if
they are equal once all their positions are the same.
-/

namespace Scriptlet

/-- The token with `f` applied to its position. -/
def Token.move (f : Position → Position) (t : Token) : Token :=
  { t with position := f t.position }

@[simp] theorem Token.move_kind (f : Position → Position) (t : Token) :
  (t.move f).kind = t.kind
  := rfl

@[simp] theorem Token.move_text (f : Position → Position) (t : Token) :
  (t.move f).text = t.text
  := rfl

@[simp] theorem Token.move_position (f : Position → Position) (t : Token) :
  (t.move f).position = f t.position
  := rfl

mutual

/-- The expression with `f` applied to its positions and `g` to its numbers. -/
def Expr.map (f : Position → Position) (g : Nat → Nat) : Expr → Expr
  | .name pos x => .name (f pos) x
  | .num pos n => .num (f pos) (g n)
  | .str pos text => .str (f pos) text
  | .bool pos b => .bool (f pos) b
  | .null pos => .null (f pos)
  | .unary pos op operand => .unary (f pos) op (operand.map f g)
  | .binary pos op left right => .binary (f pos) op (left.map f g) (right.map f g)
  | .cond pos test yes none => .cond (f pos) (test.map f g) (Stmt.mapAll f g yes) none
  | .cond pos test yes (some no) =>
    .cond (f pos) (test.map f g) (Stmt.mapAll f g yes) (some (Stmt.mapAll f g no))
  | .loop pos test body => .loop (f pos) (test.map f g) (Stmt.mapAll f g body)
  | .func pos name params body => .func (f pos) name params (Stmt.mapAll f g body)
  | .call pos callee args => .call (f pos) (callee.map f g) (Expr.mapAll f g args)
  | .array pos elements => .array (f pos) (Expr.mapAll f g elements)
  | .hash pos entries => .hash (f pos) (Expr.mapEntries f g entries)
  | .index pos collection i => .index (f pos) (collection.map f g) (i.map f g)
  | .assign pos x value => .assign (f pos) x (value.map f g)
  | .decorated pos decorator declaration =>
    .decorated (f pos) (decorator.map f g) (declaration.map f g)

/-- `Expr.map` of each of the expressions. -/
def Expr.mapAll (f : Position → Position) (g : Nat → Nat) : List Expr → List Expr
  | [] => []
  | e :: rest => e.map f g :: Expr.mapAll f g rest

/-- `Expr.map` of the keys and the values of the entries. -/
def Expr.mapEntries (f : Position → Position) (g : Nat → Nat) :
    List (Expr × Expr) → List (Expr × Expr)
  | [] => []
  | (key, value) :: rest => (key.map f g, value.map f g) :: Expr.mapEntries f g rest

/-- The statement with `f` applied to its positions and `g` to its numbers. -/
def Stmt.map (f : Position → Position) (g : Nat → Nat) : Stmt → Stmt
  | .define pos x value => .define (f pos) x (value.map f g)
  | .ret pos none => .ret (f pos) none
  | .ret pos (some value) => .ret (f pos) (some (value.map f g))
  | .expr pos value => .expr (f pos) (value.map f g)
  | .block pos body => .block (f pos) (Stmt.mapAll f g body)
  | .use pos unit => .use (f pos) unit

/-- `Stmt.map` of each of the statements. -/
def Stmt.mapAll (f : Position → Position) (g : Nat → Nat) : List Stmt → List Stmt
  | [] => []
  | s :: rest => s.map f g :: Stmt.mapAll f g rest

end

variable (f : Position → Position) (g : Nat → Nat)

/-- Expressions are changed each on its own. -/
theorem Expr.mapAll_eq (es : List Expr) :
  Expr.mapAll f g es = es.map (Expr.map f g)
  := by
  induction es with
  | nil => rfl
  | cons e rest ih => simp [Expr.mapAll, ih]

/-- Entries are changed each on its own. -/
theorem Expr.mapEntries_eq (entries : List (Expr × Expr)) :
  Expr.mapEntries f g entries = entries.map fun entry => (entry.1.map f g, entry.2.map f g)
  := by
  induction entries with
  | nil => rfl
  | cons entry rest ih => simp [Expr.mapEntries, ih]

/-- Statements are changed each on its own. -/
theorem Stmt.mapAll_eq (ss : List Stmt) :
  Stmt.mapAll f g ss = ss.map (Stmt.map f g)
  := by
  induction ss with
  | nil => rfl
  | cons s rest ih => simp [Stmt.mapAll, ih]

/-- A function can be given a name before it is changed or after. -/
@[simp] theorem Expr.map_named (name : String) (e : Expr) :
  (e.named name).map f g = (e.map f g).named name
  := by
  rcases e with _ | _ | _ | _ | _ | _ | _ | ⟨_, _, _, _ | _⟩ | _ | ⟨_, _ | _, _, _⟩ | _ | _ | _ |
    _ | _ | _
  all_goals simp [Expr.named, Expr.map]

mutual

/-- An expression that is changed twice. -/
theorem Expr.map_map (f' : Position → Position) (g' : Nat → Nat) (e : Expr) :
  (e.map f g).map f' g' = e.map (f' ∘ f) (g' ∘ g)
  := by
  cases e with
  | cond pos test yes no =>
      cases no with
      | none => simp [Expr.map, Expr.map_map f' g' test, Stmt.mapAll_mapAll f' g' yes]
      | some no =>
          simp [Expr.map, Expr.map_map f' g' test, Stmt.mapAll_mapAll f' g' yes,
            Stmt.mapAll_mapAll f' g' no]
  | unary pos op operand => simp [Expr.map, Expr.map_map f' g' operand]
  | binary pos op left right =>
      simp [Expr.map, Expr.map_map f' g' left, Expr.map_map f' g' right]
  | loop pos test body =>
      simp [Expr.map, Expr.map_map f' g' test, Stmt.mapAll_mapAll f' g' body]
  | func pos name params body => simp [Expr.map, Stmt.mapAll_mapAll f' g' body]
  | call pos callee args =>
      simp [Expr.map, Expr.map_map f' g' callee, Expr.mapAll_mapAll f' g' args]
  | array pos elements => simp [Expr.map, Expr.mapAll_mapAll f' g' elements]
  | hash pos entries => simp [Expr.map, Expr.mapEntries_mapEntries f' g' entries]
  | index pos collection i =>
      simp [Expr.map, Expr.map_map f' g' collection, Expr.map_map f' g' i]
  | assign pos x value => simp [Expr.map, Expr.map_map f' g' value]
  | decorated pos decorator declaration =>
      simp [Expr.map, Expr.map_map f' g' decorator, Stmt.map_map f' g' declaration]
  | _ => simp [Expr.map]

/-- Expressions that are changed twice. -/
theorem Expr.mapAll_mapAll (f' : Position → Position) (g' : Nat → Nat) (es : List Expr) :
  Expr.mapAll f' g' (Expr.mapAll f g es) = Expr.mapAll (f' ∘ f) (g' ∘ g) es
  := by
  cases es with
  | nil => rfl
  | cons e rest =>
      simp [Expr.mapAll, Expr.map_map f' g' e, Expr.mapAll_mapAll f' g' rest]

/-- Entries that are changed twice. -/
theorem Expr.mapEntries_mapEntries (f' : Position → Position) (g' : Nat → Nat)
    (entries : List (Expr × Expr)) :
  Expr.mapEntries f' g' (Expr.mapEntries f g entries)
    = Expr.mapEntries (f' ∘ f) (g' ∘ g) entries
  := by
  rcases entries with _ | ⟨⟨key, value⟩, rest⟩
  · rfl
  · simp [Expr.mapEntries, Expr.map_map f' g' key, Expr.map_map f' g' value,
      Expr.mapEntries_mapEntries f' g' rest]

/-- A statement that is changed twice. -/
theorem Stmt.map_map (f' : Position → Position) (g' : Nat → Nat) (s : Stmt) :
  (s.map f g).map f' g' = s.map (f' ∘ f) (g' ∘ g)
  := by
  rcases s with ⟨pos, x, value⟩ | ⟨pos, _ | value⟩ | ⟨pos, value⟩ | ⟨pos, body⟩ | ⟨pos, unit⟩
  · simp [Stmt.map, Expr.map_map f' g' value]
  · simp [Stmt.map]
  · simp [Stmt.map, Expr.map_map f' g' value]
  · simp [Stmt.map, Expr.map_map f' g' value]
  · simp [Stmt.map, Stmt.mapAll_mapAll f' g' body]
  · simp [Stmt.map]

/-- Statements that are changed twice. -/
theorem Stmt.mapAll_mapAll (f' : Position → Position) (g' : Nat → Nat) (ss : List Stmt) :
  Stmt.mapAll f' g' (Stmt.mapAll f g ss) = Stmt.mapAll (f' ∘ f) (g' ∘ g) ss
  := by
  cases ss with
  | nil => rfl
  | cons s rest =>
      simp [Stmt.mapAll, Stmt.map_map f' g' s, Stmt.mapAll_mapAll f' g' rest]

end

mutual

/-- An expression stays with its positions and numbers. -/
@[simp] theorem Expr.map_id (e : Expr) :
  e.map id id = e
  := by
  cases e with
  | cond pos test yes no =>
      cases no with
      | none => simp [Expr.map, Expr.map_id test, Stmt.mapAll_id yes]
      | some no => simp [Expr.map, Expr.map_id test, Stmt.mapAll_id yes, Stmt.mapAll_id no]
  | unary pos op operand => simp [Expr.map, Expr.map_id operand]
  | binary pos op left right => simp [Expr.map, Expr.map_id left, Expr.map_id right]
  | loop pos test body => simp [Expr.map, Expr.map_id test, Stmt.mapAll_id body]
  | func pos name params body => simp [Expr.map, Stmt.mapAll_id body]
  | call pos callee args => simp [Expr.map, Expr.map_id callee, Expr.mapAll_id args]
  | array pos elements => simp [Expr.map, Expr.mapAll_id elements]
  | hash pos entries => simp [Expr.map, Expr.mapEntries_id entries]
  | index pos collection i => simp [Expr.map, Expr.map_id collection, Expr.map_id i]
  | assign pos x value => simp [Expr.map, Expr.map_id value]
  | decorated pos decorator declaration =>
      simp [Expr.map, Expr.map_id decorator, Stmt.map_id declaration]
  | _ => simp [Expr.map]

/-- Expressions stay with their positions and numbers. -/
@[simp] theorem Expr.mapAll_id (es : List Expr) :
  Expr.mapAll id id es = es
  := by
  cases es with
  | nil => rfl
  | cons e rest => simp [Expr.mapAll, Expr.map_id e, Expr.mapAll_id rest]

/-- Entries stay with their positions and numbers. -/
@[simp] theorem Expr.mapEntries_id (entries : List (Expr × Expr)) :
  Expr.mapEntries id id entries = entries
  := by
  rcases entries with _ | ⟨⟨key, value⟩, rest⟩
  · rfl
  · simp [Expr.mapEntries, Expr.map_id key, Expr.map_id value, Expr.mapEntries_id rest]

/-- A statement stays with its positions and numbers. -/
@[simp] theorem Stmt.map_id (s : Stmt) :
  s.map id id = s
  := by
  rcases s with ⟨pos, x, value⟩ | ⟨pos, _ | value⟩ | ⟨pos, value⟩ | ⟨pos, body⟩ | ⟨pos, unit⟩
  · simp [Stmt.map, Expr.map_id value]
  · simp [Stmt.map]
  · simp [Stmt.map, Expr.map_id value]
  · simp [Stmt.map, Expr.map_id value]
  · simp [Stmt.map, Stmt.mapAll_id body]
  · simp [Stmt.map]

/-- Statements stay with their positions and numbers. -/
@[simp] theorem Stmt.mapAll_id (ss : List Stmt) :
  Stmt.mapAll id id ss = ss
  := by
  cases ss with
  | nil => rfl
  | cons s rest => simp [Stmt.mapAll, Stmt.map_id s, Stmt.mapAll_id rest]

end

/-- Statements stay with their positions and numbers, all at once. -/
@[simp] theorem Stmt.map_eq_id :
  Stmt.map id id = id
  := by
  funext s
  exact s.map_id

/-- The statement with all its nodes at the start of the source. -/
def Stmt.bare (s : Stmt) : Stmt :=
  s.map (fun _ => .start) id

/-- The expression with all its nodes at the start of the source. -/
def Expr.bare (e : Expr) : Expr :=
  e.map (fun _ => .start) id

/-- Without positions, an array has its elements without positions. -/
theorem Expr.bare_array (pos : Position) (es : List Expr) :
  (array pos es).bare = .array .start (es.map bare)
  := congrArg (array .start) (mapAll_eq _ _ es)

/-- Without positions, a hash has its keys and values without positions. -/
theorem Expr.bare_hash (pos : Position) (entries : List (Expr × Expr)) :
  (hash pos entries).bare = .hash .start (entries.map fun entry => (entry.1.bare, entry.2.bare))
  := congrArg (hash .start) (mapEntries_eq _ _ entries)

/-- A statement that is an expression but for its positions is one. -/
theorem Stmt.exists_of_bare {s : Stmt} {pos : Position} {e : Expr} (h : s.bare = .expr pos e) :
  ∃ pos' e', s = .expr pos' e' ∧ e'.bare = e
  := by
  rcases s with ⟨_, x, value⟩ | ⟨_, _ | value⟩ | ⟨pos', e'⟩ | ⟨_, body⟩ | ⟨_, unit⟩
  case expr =>
    cases h
    exact ⟨pos', e', rfl, rfl⟩
  all_goals cases h

/-- A statement is the same without positions when they are moved. -/
@[simp] theorem Stmt.bare_map (f : Position → Position) (s : Stmt) :
  (s.map f id).bare = s.bare
  := by
  unfold Stmt.bare
  rw [Stmt.map_map]
  rfl

end Scriptlet
