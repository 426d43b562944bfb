import Scriptlet.Position

/-!
# Tokens

A token is a word of a source text: its kind, its text and the position of its first character.
The text of a string token is the string it stands for, that of any other token is what was
written.
-/

namespace Scriptlet

/-- The kinds of tokens. -/
inductive TokenKind where
  /-- The end of the source. -/
  | eof
  /-- A character, or an unfinished string, that starts no token. -/
  | illegal
  | identifier
  | number
  | string
  /-- The `@` in front of the name of a decorator. -/
  | decorator
  | letWord
  | funcWord
  | trueWord
  | falseWord
  | ifWord
  | elseWord
  | returnWord
  | whileWord
  | inWord
  | typeofWord
  | nullWord
  | throwWord
  | deleteWord
  | useWord
  | assign
  | plus
  | minus
  | asterisk
  | slash
  | percent
  | bang
  | equal
  | notEqual
  | less
  | lessEqual
  | greater
  | greaterEqual
  | and
  | or
  | comma
  | semicolon
  | colon
  | leftParen
  | rightParen
  | leftBrace
  | rightBrace
  | leftBracket
  | rightBracket
deriving DecidableEq

namespace TokenKind

/-- The reserved words with their kinds. -/
def keywords : List (String × TokenKind) :=
  [("let", letWord), ("func", funcWord), ("true", trueWord), ("false", falseWord),
    ("if", ifWord), ("else", elseWord), ("return", returnWord), ("while", whileWord),
    ("in", inWord), ("typeof", typeofWord), ("null", nullWord), ("throw", throwWord),
    ("delete", deleteWord), ("use", useWord)]

/-- The kind of a reserved word, none for any other word. -/
def ofKeyword? (word : String) : Option TokenKind :=
  keywords.lookup word

/-- The kind of a word: its own for a reserved word, `identifier` for any other. -/
def ofWord (word : String) : TokenKind :=
  (ofKeyword? word).getD identifier

/-- The name of a kind in listings of tokens. -/
def name : TokenKind → String
  | eof => "Eof"
  | illegal => "Illegal"
  | identifier => "Identifier"
  | number => "Number"
  | string => "String"
  | decorator => "Decorator"
  | letWord => "Let"
  | funcWord => "Func"
  | trueWord => "True"
  | falseWord => "False"
  | ifWord => "If"
  | elseWord => "Else"
  | returnWord => "Return"
  | whileWord => "While"
  | inWord => "In"
  | typeofWord => "Typeof"
  | nullWord => "Null"
  | throwWord => "Throw"
  | deleteWord => "Delete"
  | useWord => "Use"
  | assign => "Assign"
  | plus => "Plus"
  | minus => "Minus"
  | asterisk => "Asterisk"
  | slash => "Slash"
  | percent => "Percent"
  | bang => "Bang"
  | equal => "Equal"
  | notEqual => "NotEqual"
  | less => "LessThan"
  | lessEqual => "LessThanEq"
  | greater => "GreaterThan"
  | greaterEqual => "GreaterThanEq"
  | and => "And"
  | or => "Or"
  | comma => "Comma"
  | semicolon => "Semicolon"
  | colon => "Colon"
  | leftParen => "LParen"
  | rightParen => "RParen"
  | leftBrace => "LBrace"
  | rightBrace => "RBrace"
  | leftBracket => "LBracket"
  | rightBracket => "RBracket"

end TokenKind

/-- A word of a source text. -/
structure Token where
  /-- The kind of the word. -/
  kind : TokenKind
  /-- What the word says: for a string its content, else the characters written. -/
  text : String
  /-- The position of the first character. -/
  position : Position
deriving DecidableEq

end Scriptlet
