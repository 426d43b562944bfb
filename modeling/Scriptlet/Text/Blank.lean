/-!
# Blank characters

The Unicode property `White_Space`, which separates tokens and is trimmed from the lines of an
interactive session.
-/

namespace Scriptlet

/-- The ranges of code points, ends included, that have the property `White_Space`. -/
def blankRanges : List (Nat × Nat) :=
  [(0x9, 0xD), (0x20, 0x20), (0x85, 0x85), (0xA0, 0xA0), (0x1680, 0x1680), (0x2000, 0x200A),
    (0x2028, 0x2029), (0x202F, 0x202F), (0x205F, 0x205F), (0x3000, 0x3000)]

/-- Whether `c` has the property `White_Space`. -/
def isBlank (c : Char) : Bool :=
  blankRanges.any fun (low, high) => low ≤ c.toNat && c.toNat ≤ high

/-- The text without the blank characters at its two ends. -/
def trimBlank (text : String) : String :=
  String.ofList ((text.toList.dropWhile isBlank).reverse.dropWhile isBlank).reverse

/-- The runs of characters between blank ones, in order. -/
def blankSeparated (text : String) : List String :=
  ((text.toList.splitBy fun a b => isBlank a == isBlank b).filter
    fun run => !run.all isBlank).map String.ofList

end Scriptlet
