import Scriptlet.Text.Hidden

/-!
# Quoted texts

A text between double quotes on one line.  A backslash stands before a quote, a backslash and
the letters for the common control characters; any other character that cannot be seen is
written as its code point in hexadecimal digits, `\u{301}`.
-/

namespace Scriptlet

namespace Quoted

/-- A character inside quotes. -/
def character (c : Char) : List Char :=
  match c with
  | '\x00' => ['\\', '0']
  | '\t' => ['\\', 't']
  | '\r' => ['\\', 'r']
  | '\n' => ['\\', 'n']
  | '"' => ['\\', '"']
  | '\\' => ['\\', '\\']
  | _ => if isHidden c then '\\' :: 'u' :: '{' :: Nat.toDigits 16 c.toNat ++ ['}'] else [c]

end Quoted

/-- A text between double quotes. -/
def quoted (text : String) : String :=
  String.ofList ('"' :: text.toList.flatMap Quoted.character ++ ['"'])

end Scriptlet
