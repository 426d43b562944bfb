import Scriptlet.Proofs.Sequence
import Scriptlet.Proofs.Showing.Making
import Scriptlet.Proofs.Showing.Phrase

/-!
# Values that are read back

A value that is made of containers, booleans, `null` and readable strings is shown as a literal.  In
parentheses, without which a hash would be a block, the literal is a program, and the program comes
to a value that equals the one that was shown and is shown the same way.
-/

namespace Scriptlet

variable {σ : Type}

variable {setting : Setting σ} {scope : Scope} {m m' : Machine σ} {v : Value}

/-- A program that is one expression comes to what the expression comes to. -/
theorem Task.ends_program_expr {pos : Position} {e : Expr} {file : String}
    (he : (expr e scope).Ends setting ((Bracket.program file).opened m) (.ok v m'))
    (hv : v.isError = false) :
  (program ⟨[.expr pos e], file⟩ scope).Ends setting m (.ok v ((Bracket.program file).closed m m'))
  := by
  refine ends_program.mpr ⟨.ok v m', ?_, ?_⟩
  · exact ends_statements_singleton.mpr (ends_iff.mpr (ends_last.mpr he))
  · cases v
    case error => cases hv
    all_goals rfl

/-- The text of a value in parentheses is parsed without errors.  The program that it holds comes to
a value that equals the one that was shown, whichever is compared with the other, and is shown by
the same text.  The arrays and hashes that were there before are left as they were. -/
theorem Heap.Data.reads_back (hv : m.heap.Data v) (setting : Setting σ) (scope : Scope)
    (file : String) :
  (Program.parse ("(" ++ m.heap.inspect v ++ ")") file).2 = []
  ∧ ∃ w m', (Task.program (Program.parse ("(" ++ m.heap.inspect v ++ ")") file).1 scope).Ends
      setting m (.ok w m')
    ∧ m.heap.Extends m'.heap
    ∧ m'.heap.equal? v w = some true
    ∧ m'.heap.equal? w v = some true
    ∧ m'.heap.inspect w = m.heap.inspect v
  := by
  obtain ⟨e, he⟩ := hv.built.exists_spells hv.readable
  obtain ⟨pos, e', hparse, he'⟩ := he.exists_parse file
  rw [hparse]
  refine ⟨rfl, ?_⟩
  obtain ⟨w, m', hends, hextends, hw⟩ := he'.remakes hv.distinctKeys scope
    ((Bracket.program file).opened m) (.refl _)
  have htwins : Expr.Twins m'.heap v w := ⟨e', he'.extends hextends.heap, hw⟩
  have hkeys : m'.heap.DistinctKeys v := hv.distinctKeys.extends hv.built hextends.heap
  refine ⟨w, (Bracket.program file).closed m m', ?_, hextends.heap, htwins.equal?_eq hkeys,
    htwins.symm.equal?_eq (htwins.distinctKeys hkeys), ?_⟩
  · apply Task.ends_program_expr hends
    cases w
    case error => exact hw.readable.elim
    all_goals rfl
  · apply String.toList_injective
    exact (Heap.toList_inspect hw).trans (Heap.toList_inspect he').symm

/-- A hash that has an array and an empty hash among its keys and holds one array twice. -/
def Heap.nested : Heap :=
  ⟨#[#[.str "\"\\'~ \n\t\r\x00", .null], #[.bool false]],
    #[#[(.array 0, .hash 1), (.hash 1, .array 1), (.str "x", .array 1)], #[]], #[]⟩

/-- The hash is made of containers, booleans, `null` and readable strings. -/
theorem Heap.data_nested :
  nested.Data (.hash 0)
  := by
  have hspells : ∃ e : Expr, e.Spells nested (.hash 0) := by
    use .hash .start
      [(.array .start [.str .start "\"\\'~ \n\t\r\x00", .null .start], .hash .start []),
      (.hash .start [], .array .start [.bool .start false]),
      (.str .start "x", .array .start [.bool .start false])]
    simp [Expr.Spells, Expr.SpellAll, Expr.SpellPairs, nested, array, hash, isReadable]
  obtain ⟨hbuilt, hread⟩ := exists_spells_iff.mp hspells
  refine ⟨hbuilt, hread, fun i _ => ?_⟩
  rcases i with _ | _ | i
  · decide +kernel
  · exact .nil
  · simp [nested, hash]

/-- A hash with an array and an empty hash among its keys. -/
theorem Heap.Data.reads_back_nested :
  let m : Machine := { Machine.initial (.ofLines []) with heap := nested }
  let text := "(" ++ nested.inspect (.hash 0) ++ ")"
  nested.Data (.hash 0)
  ∧ text = "(\x7b[\"\\\"\\\\'~ \\n\\t\\r\\0\", null]: \x7b\x7d, "
    ++ "\x7b\x7d: [false], \"x\": [false]\x7d)"
  ∧ ∃ w m', (Task.program (Program.parse text "main.tiny").1 []).Ends
      ⟨.standard, Device.standard, .empty⟩ m (.ok w m')
    ∧ m'.heap.equal? (.hash 0) w = some true
  := by
  intro m text
  obtain ⟨-, w, m', hends, -, hequal, -⟩ := Data.reads_back (m := m) data_nested
    ⟨.standard, Device.standard, .empty⟩ [] "main.tiny"
  exact ⟨data_nested, by decide +kernel, w, m', hends, hequal⟩

end Scriptlet
