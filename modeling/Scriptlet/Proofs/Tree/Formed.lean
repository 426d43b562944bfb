import Scriptlet.Source
import Scriptlet.Tree

/-!
# Well-formed trees

The syntax trees that a source text can have.  Their names are words that are not reserved, but
for the name of a decorator, which may be.  A function literal that a declaration binds has a name.
-/

namespace Scriptlet

/-- Whether a text is a word: it starts like a name and goes on like one. -/
def IsWord (x : String) : Prop :=
  ∃ c cs, x.toList = c :: cs ∧ Source.isNameStart c = true
    ∧ ∀ d ∈ cs, Source.isNamePart d = true

/-- Whether a text is a word that is not reserved. -/
def IsName (x : String) : Prop :=
  IsWord x ∧ TokenKind.ofWord x = .identifier

/-- Whether an expression is a function literal without a name. -/
def Expr.anonymous : Expr → Bool
  | .func _ none _ _ => true
  | _ => false

/-- Whether an expression is a name. -/
def Expr.isName : Expr → Bool
  | .name _ _ => true
  | _ => false

mutual

/-- Whether an expression can be written. -/
def Expr.Formed : Expr → Prop
  | .name _ x => IsName x
  | .num _ _ | .str _ _ | .bool _ _ | .null _ => True
  | .unary _ op operand => operand.Formed ∧ (op = .delete → operand.isName = true)
  | .binary _ _ left right => left.Formed ∧ right.Formed
  | .cond _ test yes none => test.Formed ∧ Stmt.AllFormed yes
  | .cond _ test yes (some no) => test.Formed ∧ Stmt.AllFormed yes ∧ Stmt.AllFormed no
  | .loop _ test body => test.Formed ∧ Stmt.AllFormed body
  | .func _ name params body =>
    (∀ x ∈ name, IsName x) ∧ (∀ x ∈ params, IsName x) ∧ params.Nodup ∧ Stmt.AllFormed body
  | .call _ callee args => callee.Formed ∧ Expr.AllFormed args
  | .array _ elements => Expr.AllFormed elements
  | .hash _ entries => Expr.EntriesFormed entries
  | .index _ collection i => collection.Formed ∧ i.Formed
  | .assign _ x value => IsName x ∧ value.Formed
  | .decorated _ decorator declaration => decorator.IsDecorator ∧ declaration.IsDeclaration

/-- Whether all the expressions can be written. -/
def Expr.AllFormed : List Expr → Prop
  | [] => True
  | e :: rest => e.Formed ∧ Expr.AllFormed rest

/-- Whether the keys and the values of all the entries can be written. -/
def Expr.EntriesFormed : List (Expr × Expr) → Prop
  | [] => True
  | (key, value) :: rest => key.Formed ∧ value.Formed ∧ Expr.EntriesFormed rest

/-- Whether an expression can be written behind the `@` of a decorator. -/
def Expr.IsDecorator : Expr → Prop
  | .name _ x => IsWord x
  | .call _ (.name _ x) args => IsWord x ∧ Expr.AllFormed args
  | _ => False

/-- Whether a statement can be written. -/
def Stmt.Formed : Stmt → Prop
  | .define _ x value => IsName x ∧ value.anonymous = false ∧ value.Formed
  | .ret _ none => True
  | .ret _ (some value) => value.Formed
  | .expr _ value => value.Formed
  | .block _ body => Stmt.AllFormed body
  | .use _ _ => True

/-- Whether all the statements can be written. -/
def Stmt.AllFormed : List Stmt → Prop
  | [] => True
  | s :: rest => s.Formed ∧ Stmt.AllFormed rest

/-- Whether a statement can be written behind a decorator. -/
def Stmt.IsDeclaration : Stmt → Prop
  | .define _ x value => IsName x ∧ value.anonymous = false ∧ value.Formed
  | .expr _ (.decorated _ decorator declaration) =>
    decorator.IsDecorator ∧ declaration.IsDeclaration
  | _ => False

end

/-- What can be decorated can be written as a statement. -/
theorem Stmt.IsDeclaration.formed {s : Stmt} (h : s.IsDeclaration) :
  s.Formed
  := by
  cases s with
  | define pos x value => exact h
  | expr pos value =>
      cases value with
      | decorated pos decorator declaration => exact h
      | _ => exact h.elim
  | _ => exact h.elim

/-- A function that is given a name can be written with it. -/
theorem Expr.Formed.named {e : Expr} (h : e.Formed) {x : String} (hx : IsName x) :
  (e.named x).Formed
  := by
  rcases e with _ | _ | _ | _ | _ | _ | _ | _ | _ | ⟨pos, _ | name, params, body⟩ | _ | _ | _ | _ |
    _ | _
  case func.none =>
    obtain ⟨-, hparams⟩ := h
    constructor
    · rintro y ⟨⟩
      exact hx
    · exact hparams
  all_goals exact h

/-- What has been given a name is no function without one. -/
@[simp] theorem Expr.anonymous_named (e : Expr) (x : String) :
  (e.named x).anonymous = false
  := by
  rcases e with _ | _ | _ | _ | _ | _ | _ | _ | _ | ⟨_, _ | _, _, _⟩ | _ | _ | _ | _ | _ | _
  all_goals rfl

/-- What is no function without a name is not given one. -/
theorem Expr.named_of_not_anonymous {e : Expr} (h : e.anonymous = false) (x : String) :
  e.named x = e
  := by
  rcases e with _ | _ | _ | _ | _ | _ | _ | _ | _ | ⟨_, _ | _, _, _⟩ | _ | _ | _ | _ | _ | _
  case func.none => cases h
  all_goals rfl

end Scriptlet
