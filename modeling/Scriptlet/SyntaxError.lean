import Scriptlet.Position

/-!
# Syntax errors

What can be wrong with the tokens of a source, and the wording of each.
-/

namespace Scriptlet

/-- What a rule of the grammar calls for. -/
inductive Expectation where
  | nameAfterLet
  | equalsAfterLet
  | nameAfterUse
  | nameAfterDelete
  | blockStart
  | argumentsEnd
  | indexEnd
  | groupEnd
  | arrayEnd
  | hashColon
  | hashEnd
  /-- The parenthesis before the condition that follows `word`. -/
  | conditionStart (word : String)
  /-- The parenthesis after the condition that follows `word`. -/
  | conditionEnd (word : String)
  | paramsStart
  | paramsEnd
  | paramName
  | decoratorName
  | decoratorEnd

/-- The wording of an expectation. -/
def Expectation.text : Expectation → String
  | nameAfterLet => "a name after 'let'"
  | equalsAfterLet => "'=' after the name in 'let'"
  | nameAfterUse => "a module name after 'use'"
  | nameAfterDelete => "a name after 'delete'"
  | blockStart => "'\x7b'"
  | argumentsEnd => "')' after arguments"
  | indexEnd => "']' after index"
  | groupEnd => "')' after expression"
  | arrayEnd => "']' after array elements"
  | hashColon => "':' after hash key"
  | hashEnd => "'\x7d' after hash entries"
  | conditionStart word => "'(' after '" ++ word ++ "'"
  | conditionEnd word => "')' after the '" ++ word ++ "' condition"
  | paramsStart => "'(' before parameters"
  | paramsEnd => "')' after parameters"
  | paramName => "parameter name"
  | decoratorName => "a decorator name after '@'"
  | decoratorEnd => "')' after decorator arguments"

/-- What is wrong with a source. -/
inductive SyntaxFlaw where
  /-- Something else is called for than the token of the text `found`, or than the end of the
  source. -/
  | expected (what : Expectation) (found : Option String)
  | unclosedBlock
  | invalidTarget
  | duplicateParam (name : String)
  | unterminatedString
  | illegalCharacter (text : String)
  | unexpectedEnd
  | unexpectedToken (text : String)
  | undecoratable
  /-- The parser was given too little fuel for the length of the source. -/
  | tooDeep

/-- The wording of a flaw. -/
def SyntaxFlaw.message : SyntaxFlaw → String
  | expected what (some found) => "Expected " ++ what.text ++ ", found '" ++ found ++ "'"
  | expected what none => "Expected " ++ what.text ++ ", found end of input"
  | unclosedBlock => "Expected '\x7d' to close the block"
  | invalidTarget => "Invalid assignment target"
  | duplicateParam name => "Duplicate parameter '" ++ name ++ "'"
  | unterminatedString => "Unterminated string literal"
  | illegalCharacter text => "Illegal character '" ++ text ++ "'"
  | unexpectedEnd => "Unexpected end of input"
  | unexpectedToken text => "Unexpected token '" ++ text ++ "'"
  | undecoratable => "A decorator must be followed by a 'func' or 'let' declaration"
  | tooDeep => "Nested too deeply"

/-- A flaw and the position of the token it is reported at. -/
structure SyntaxError where
  /-- What is wrong. -/
  flaw : SyntaxFlaw
  /-- Where it is. -/
  position : Position

namespace SyntaxError

/-- The wording of an error. -/
def message (e : SyntaxError) : String :=
  e.flaw.message

end SyntaxError

end Scriptlet
