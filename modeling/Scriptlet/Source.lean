import Scriptlet.Text.Blank
import Scriptlet.Token

/-!
# Source texts

The tokens of a source text.  Blank characters and comments, which run from `//` to the end of
the line, separate tokens and are dropped.  A character that starts no token, and a string
without its closing quote, becomes an illegal token, so every text has a list of tokens.

The tokens of a text are found all at once (`tokens`) or one by one (`Scanner.next`), where the end
of the text is a token that is found again and again.
-/

namespace Scriptlet

namespace Source

/-- Whether a name can start with `c`. -/
def isNameStart (c : Char) : Bool :=
  c.isAlpha || c == '_'

/-- Whether a name can go on with `c`. -/
def isNamePart (c : Char) : Bool :=
  c.isAlphanum || c == '_' || c == '$'

/-- The character that `c` stands for after a backslash. -/
def unescape : Char → Char
  | 'n' => '\n'
  | 't' => '\t'
  | 'r' => '\r'
  | '0' => '\x00'
  | c => c

/-- The content of a string literal whose opening quote has been read, and the number of
characters read up to its closing quote, that one included; none if it is never closed. -/
def stringBody (quote : Char) : List Char → Option (List Char × Nat)
  | [] => none
  | c :: cs =>
    if c = quote then
      some ([], 1)
    else if c = '\\' then
      match cs with
      | [] => none
      | e :: rest => (stringBody quote rest).map fun (body, n) => (unescape e :: body, n + 2)
    else
      (stringBody quote cs).map fun (body, n) => (c :: body, n + 1)

/-- The kind of a token of one character. -/
def single : Char → TokenKind
  | '=' => .assign
  | '+' => .plus
  | '-' => .minus
  | '*' => .asterisk
  | '/' => .slash
  | '%' => .percent
  | '!' => .bang
  | '<' => .less
  | '>' => .greater
  | ',' => .comma
  | ';' => .semicolon
  | ':' => .colon
  | '(' => .leftParen
  | ')' => .rightParen
  | '{' => .leftBrace
  | '}' => .rightBrace
  | '[' => .leftBracket
  | ']' => .rightBracket
  | _ => .illegal

/-- The kind of an operator of two characters. -/
def double? : Char → Char → Option TokenKind
  | '=', '=' => some .equal
  | '!', '=' => some .notEqual
  | '<', '=' => some .lessEqual
  | '>', '=' => some .greaterEqual
  | '&', '&' => some .and
  | '|', '|' => some .or
  | _, _ => none

/-- A token without its position: the number of characters it takes after the first one goes
in place. -/
structure Lexeme where
  /-- The kind of the token. -/
  kind : TokenKind
  /-- The text of the token. -/
  text : String
  /-- How many characters the token takes after its first one. -/
  more : Nat

/-- The longest word or operator that starts with `c` and goes on in `cs`. -/
def lexeme (c : Char) (cs : List Char) : Lexeme :=
  if isNameStart c then
    let part := cs.takeWhile isNamePart
    let word := String.ofList (c :: part)
    ⟨.ofWord word, word, part.length⟩
  else if c.isDigit then
    let part := cs.takeWhile Char.isDigit
    ⟨.number, String.ofList (c :: part), part.length⟩
  else if c = '"' ∨ c = '\'' then
    match stringBody c cs with
    | some (body, n) => ⟨.string, String.ofList body, n⟩
    | none => ⟨.illegal, String.ofList (c :: cs), cs.length⟩
  else
    match cs.head?.bind fun d => (double? c d).map fun kind => (d, kind) with
    | some (d, kind) => ⟨kind, String.ofList [c, d], 1⟩
    | none => ⟨single c, String.ofList [c], 0⟩

/-- The tokens of the characters that follow position `p`, after `skip` characters that have
been read already. -/
def scan (p : Position) (skip : Nat) : List Char → List Token
  | [] => []
  | c :: cs =>
    match skip with
    | k + 1 => scan (p.next c) k cs
    | 0 =>
      if isBlank c then
        scan (p.next c) 0 cs
      else if c = '/' ∧ cs.head? = some '/' then
        scan (p.next c) (cs.takeWhile (· ≠ '\n')).length cs
      else if c = '@' ∧ cs.head?.any isNameStart then
        let name := cs.takeWhile isNamePart
        ⟨.decorator, "@", p⟩ :: ⟨.identifier, String.ofList name, p.next c⟩
          :: scan (p.next c) name.length cs
      else
        let l := lexeme c cs
        ⟨l.kind, l.text, p⟩ :: scan (p.next c) l.more cs

/-- The tokens of a text, without the one that marks its end. -/
def tokens (text : String) : List Token :=
  scan .start 0 text.toList

/-- The position after the last character of a text. -/
def finish (text : String) : Position :=
  Position.start.after text.toList

/-- The token that marks the end of a text. -/
def eof (text : String) : Token :=
  ⟨.eof, "", finish text⟩

/-- The tokens of a text, its end marked by an `eof` token. -/
def listing (text : String) : List Token :=
  tokens text ++ [eof text]

/-- A text that is read token by token. -/
structure Scanner where
  /-- The characters that have not been read. -/
  rest : List Char
  /-- The position of the first of them. -/
  position : Position
  /-- The name behind the `@` of a decorator that was the last token. -/
  pending : Option Token

namespace Scanner

/-- A text of which nothing has been read. -/
def ofText (text : String) : Scanner :=
  ⟨text.toList, .start, none⟩

/-- The first token of the characters that follow position `p`, after `skip` characters that have
been read already, and what is left behind it.  The end of the text is a token of its own. -/
def read (p : Position) (skip : Nat) : List Char → Token × Scanner
  | [] => (⟨.eof, "", p⟩, ⟨[], p, none⟩)
  | c :: cs =>
    match skip with
    | k + 1 => read (p.next c) k cs
    | 0 =>
      if isBlank c then
        read (p.next c) 0 cs
      else if c = '/' ∧ cs.head? = some '/' then
        read (p.next c) (cs.takeWhile (· ≠ '\n')).length cs
      else if c = '@' ∧ cs.head?.any isNameStart then
        let name := cs.takeWhile isNamePart
        (⟨.decorator, "@", p⟩, ⟨cs.drop name.length, (p.next c).after name,
          some ⟨.identifier, String.ofList name, p.next c⟩⟩)
      else
        let l := lexeme c cs
        (⟨l.kind, l.text, p⟩, ⟨cs.drop l.more, (p.next c).after (cs.take l.more), none⟩)

/-- The next token and what is left behind it. -/
def next (s : Scanner) : Token × Scanner :=
  match s.pending with
  | some t => (t, { s with pending := none })
  | none => read s.position 0 s.rest

/-- The next `n` tokens. -/
def take : Nat → Scanner → List Token
  | 0, _ => []
  | n + 1, s =>
    let found := s.next
    found.1 :: take n found.2

end Scanner

/-- The first `n` tokens of a text that are read one by one. -/
def firstTokens (text : String) (n : Nat) : List Token :=
  (Scanner.ofText text).take n

end Source

end Scriptlet
