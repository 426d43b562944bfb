import Scriptlet.Number.Numeral
import Scriptlet.Source
import Scriptlet.SyntaxError
import Scriptlet.Tree.Level

/-!
# Parsing

The syntax tree of a list of tokens.  Statements are parsed one after the other.  Where one is
malformed its first error is kept, and parsing goes on behind the next semicolon or at the next
token that can only start a statement, so that one pass finds the errors of all statements.

A rule reads tokens off the front of those that are left.  `finish` is the position of the end
of the source, at which an error about missing tokens is reported.  The rules spend one unit of
fuel a step; `Program.parse` gives them more than the tokens of the source can use up.
-/

namespace Scriptlet

/-- A rule of the grammar: what it makes of the tokens it reads, or the error it meets, and the
tokens that are left. -/
abbrev Parse := EStateM SyntaxError (List Token)

namespace Parse

variable (finish : Position)

/-- The kind of the next token. -/
def kind : Parse TokenKind := do
  match ← get with
  | [] => return .eof
  | t :: _ => return t.kind

/-- The kind of the token after the next one. -/
def secondKind : Parse TokenKind := do
  match ← get with
  | _ :: t :: _ => return t.kind
  | _ => return .eof

/-- The position of the next token. -/
def here : Parse Position := do
  match ← get with
  | [] => return finish
  | t :: _ => return t.position

/-- The text of the next token. -/
def word : Parse String := do
  match ← get with
  | [] => return ""
  | t :: _ => return t.text

/-- Reads one token. -/
def advance : Parse Unit :=
  modify List.tail

/-- The error that the next token is not what the grammar calls for. -/
def fail (flaw : SyntaxFlaw) : Parse α := do
  throw ⟨flaw, ← here finish⟩

/-- The error that something else is called for than the next token. -/
def unexpected (what : Expectation) : Parse α := do
  match ← get with
  | [] => fail finish (.expected what none)
  | t :: _ => fail finish (.expected what (some t.text))

/-- Reads one token of the given kind. -/
def expect (wanted : TokenKind) (what : Expectation) : Parse Unit := do
  if (← kind) = wanted then advance else unexpected finish what

/-- Reads a name. -/
def identifier (what : Expectation) : Parse String := do
  if (← kind) = .identifier then
    let name ← word
    advance
    return name
  else
    unexpected finish what

/-- Reads a semicolon if there is one. -/
def skipSemicolon : Parse Unit := do
  if (← kind) = .semicolon then advance

/-- Reads a comma if there is one, and tells whether there was. -/
def skipComma : Parse Bool := do
  if (← kind) = .comma then
    advance
    return true
  else
    return false

/-- Reads the name of a unit after `use`, a string or a bare name. -/
def useStatement : Parse Stmt := do
  let pos ← here finish
  advance
  match ← kind with
  | .string | .identifier =>
    let unit ← word
    advance
    skipSemicolon
    return .use pos unit
  | _ => unexpected finish .nameAfterUse

/-- Reads the names of parameters, which have to differ from one another and from those in
`found`, up to the parenthesis that ends them. -/
def paramNames : Nat → List String → Parse (List String)
  | 0, _ => fail finish .tooDeep
  | n + 1, found => do
    let pos ← here finish
    let name ← identifier finish .paramName
    if name ∈ found then
      throw ⟨.duplicateParam name, pos⟩
    if ← skipComma then
      paramNames n (found ++ [name])
    else
      return found ++ [name]

/-- Reads the parameters of a function literal. -/
def params (n : Nat) : Parse (List String) := do
  if (← kind) = .rightParen then return [] else paramNames finish n []

/-- The error that the next token starts no expression. -/
def noExpression : Parse α := do
  let text ← word
  match ← kind with
  | .illegal =>
    if text.toList.head?.any fun c => c == '"' || c == '\'' then
      fail finish .unterminatedString
    else
      fail finish (.illegalCharacter text)
  | .eof => fail finish .unexpectedEnd
  | _ => fail finish (.unexpectedToken text)

mutual

/-- A statement. -/
def statement : Nat → Parse Stmt
  | 0 => fail finish .tooDeep
  | n + 1 => do
    match ← kind with
    | .letWord => letStatement n
    | .returnWord => returnStatement n
    | .useWord => useStatement finish
    | .leftBrace =>
      let pos ← here finish
      return .block pos (← block n)
    | .funcWord => if (← secondKind) = .identifier then funcStatement n else exprStatement n
    | _ => exprStatement n

/-- An expression as a statement. -/
def exprStatement : Nat → Parse Stmt
  | 0 => fail finish .tooDeep
  | n + 1 => do
    let pos ← here finish
    let e ← binary n assignLevel
    skipSemicolon
    return .expr pos e

/-- A `let`, which gives its name to a function literal that has none. -/
def letStatement : Nat → Parse Stmt
  | 0 => fail finish .tooDeep
  | n + 1 => do
    let pos ← here finish
    advance
    let name ← identifier finish .nameAfterLet
    expect finish .assign .equalsAfterLet
    let value ← binary n assignLevel
    skipSemicolon
    return .define pos name (value.named name)

/-- A `return`, with a value unless a semicolon, a brace or the end follows. -/
def returnStatement : Nat → Parse Stmt
  | 0 => fail finish .tooDeep
  | n + 1 => do
    let pos ← here finish
    advance
    match ← kind with
    | .semicolon | .rightBrace | .eof =>
      skipSemicolon
      return .ret pos none
    | _ =>
      let e ← binary n assignLevel
      skipSemicolon
      return .ret pos (some e)

/-- The declaration of a function, which binds the function to its name. -/
def funcStatement : Nat → Parse Stmt
  | 0 => fail finish .tooDeep
  | n + 1 => do
    let pos ← here finish
    advance
    let name ← word
    let value ← function n pos
    skipSemicolon
    return .define pos name value

/-- The name, if any, the parameters and the body of a function literal, after its `func` at
`pos`. -/
def function : Nat → Position → Parse Expr
  | 0, _ => fail finish .tooDeep
  | n + 1, pos => do
    let name ← if (← kind) = .identifier then some <$> identifier finish .paramName
      else pure none
    expect finish .leftParen .paramsStart
    let names ← params finish n
    expect finish .rightParen .paramsEnd
    return .func pos name names (← block n)

/-- The statements between braces. -/
def block : Nat → Parse (List Stmt)
  | 0 => fail finish .tooDeep
  | n + 1 => do
    let pos ← here finish
    expect finish .leftBrace .blockStart
    blockRest n pos

/-- The statements up to the brace that closes a block opened at `start`. -/
def blockRest : Nat → Position → Parse (List Stmt)
  | 0, _ => fail finish .tooDeep
  | n + 1, start => do
    match ← kind with
    | .rightBrace =>
      advance
      return []
    | .eof => throw ⟨.unclosedBlock, start⟩
    | .semicolon =>
      advance
      blockRest n start
    | _ =>
      let s ← statement n
      let rest ← blockRest n start
      return s :: rest

/-- An expression whose binary operators have at least the given level. -/
def binary : Nat → Nat → Parse Expr
  | 0, _ => fail finish .tooDeep
  | n + 1, level => do
    let left ← unary n
    binaryRest n level left

/-- The operators of at least the given level that follow their left operand. -/
def binaryRest : Nat → Nat → Expr → Parse Expr
  | 0, _, _ => fail finish .tooDeep
  | n + 1, level, left => do
    let kind ← kind
    if kind = .assign then
      if assignLevel < level then
        return left
      else
        assignment n level left
    else
      match BinaryOp.ofToken? kind with
      | none => return left
      | some op =>
        if op.level < level then
          return left
        else
          let pos ← here finish
          advance
          let right ← binary n op.rightLevel
          binaryRest n level (.binary pos op left right)

/-- An assignment to the name `left`, which takes in the assignments to its right. -/
def assignment : Nat → Nat → Expr → Parse Expr
  | 0, _, _ => fail finish .tooDeep
  | n + 1, level, left => do
    let sign ← here finish
    advance
    match left with
    | .name pos name =>
      let value ← binary n assignLevel
      binaryRest n level (.assign pos name value)
    | _ => throw ⟨.invalidTarget, sign⟩

/-- An operand with the unary operators in front of it. -/
def unary : Nat → Parse Expr
  | 0 => fail finish .tooDeep
  | n + 1 => do
    let pos ← here finish
    match UnaryOp.ofToken? (← kind) with
    | none => suffixed n
    | some .throw =>
      advance
      return .unary pos .throw (← binary n assignLevel)
    | some .delete =>
      advance
      let target ← here finish
      let name ← identifier finish .nameAfterDelete
      return .unary pos .delete (.name target name)
    | some op =>
      advance
      return .unary pos op (← unary n)

/-- An operand with the calls and indices behind it. -/
def suffixed : Nat → Parse Expr
  | 0 => fail finish .tooDeep
  | n + 1 => do
    let e ← primary n
    suffixes n e

/-- The calls and indices behind `e`. -/
def suffixes : Nat → Expr → Parse Expr
  | 0, _ => fail finish .tooDeep
  | n + 1, e => do
    let pos ← here finish
    match ← kind with
    | .leftParen =>
      advance
      let args ← expressions n .rightParen
      expect finish .rightParen .argumentsEnd
      suffixes n (.call pos e args)
    | .leftBracket =>
      advance
      let i ← binary n assignLevel
      expect finish .rightBracket .indexEnd
      suffixes n (.index pos e i)
    | _ => return e

/-- The expressions between commas up to the token `stop`, which is left. -/
def expressions : Nat → TokenKind → Parse (List Expr)
  | 0, _ => fail finish .tooDeep
  | n + 1, stop => do
    if (← kind) = stop then
      return []
    let e ← binary n assignLevel
    if ← skipComma then
      let rest ← expressions n stop
      return e :: rest
    else
      return [e]

/-- An operand. -/
def primary : Nat → Parse Expr
  | 0 => fail finish .tooDeep
  | n + 1 => do
    let pos ← here finish
    match ← kind with
    | .number =>
      let digits ← word
      advance
      return .num pos (Numeral.value digits.toList)
    | .string =>
      let text ← word
      advance
      return .str pos text
    | .trueWord =>
      advance
      return .bool pos true
    | .falseWord =>
      advance
      return .bool pos false
    | .nullWord =>
      advance
      return .null pos
    | .identifier =>
      let name ← word
      advance
      return .name pos name
    | .leftParen =>
      advance
      let e ← binary n assignLevel
      expect finish .rightParen .groupEnd
      return e
    | .leftBracket =>
      advance
      let elements ← expressions n .rightBracket
      expect finish .rightBracket .arrayEnd
      return .array pos elements
    | .leftBrace =>
      advance
      let entries ← hashEntries n
      expect finish .rightBrace .hashEnd
      return .hash pos entries
    | .ifWord => conditional n
    | .whileWord =>
      advance
      let test ← condition n "while"
      return .loop pos test (← block n)
    | .funcWord =>
      advance
      function n pos
    | .decorator => decorated n
    | _ => noExpression finish

/-- The entries of a hash up to the brace that ends it, which is left. -/
def hashEntries : Nat → Parse (List (Expr × Expr))
  | 0 => fail finish .tooDeep
  | n + 1 => do
    if (← kind) = .rightBrace then
      return []
    let key ← hashKey n
    expect finish .colon .hashColon
    let value ← binary n assignLevel
    if ← skipComma then
      let rest ← hashEntries n
      return (key, value) :: rest
    else
      return [(key, value)]

/-- The key of an entry: a bare name before a colon stands for itself as a string. -/
def hashKey : Nat → Parse Expr
  | 0 => fail finish .tooDeep
  | n + 1 => do
    if (← kind) = .identifier ∧ (← secondKind) = .colon then
      let pos ← here finish
      let name ← word
      advance
      return .str pos name
    else
      binary n assignLevel

/-- An expression in parentheses after `keyword`. -/
def condition : Nat → String → Parse Expr
  | 0, _ => fail finish .tooDeep
  | n + 1, keyword => do
    expect finish .leftParen (.conditionStart keyword)
    let test ← binary n assignLevel
    expect finish .rightParen (.conditionEnd keyword)
    return test

/-- An `if` with its branches: an `else if` is an `else` with one statement. -/
def conditional : Nat → Parse Expr
  | 0 => fail finish .tooDeep
  | n + 1 => do
    let pos ← here finish
    advance
    let test ← condition n "if"
    let yes ← block n
    if (← kind) = .elseWord then
      advance
      if (← kind) = .ifWord then
        let inner ← here finish
        let nested ← conditional n
        return .cond pos test yes (some [.expr inner nested])
      else
        let no ← block n
        return .cond pos test yes (some no)
    else
      return .cond pos test yes none

/-- A decorator, a name or the call of one, with the declaration it is put on. -/
def decorated : Nat → Parse Expr
  | 0 => fail finish .tooDeep
  | n + 1 => do
    let pos ← here finish
    advance
    let namePos ← here finish
    let name ← identifier finish .decoratorName
    let callPos ← here finish
    if (← kind) = .leftParen then
      advance
      let args ← expressions n .rightParen
      expect finish .rightParen .decoratorEnd
      return .decorated pos (.call callPos (.name namePos name) args) (← declaration n)
    else
      return .decorated pos (.name namePos name) (← declaration n)

/-- The declaration that a decorator is put on. -/
def declaration : Nat → Parse Stmt
  | 0 => fail finish .tooDeep
  | n + 1 => do
    match ← kind with
    | .letWord => letStatement n
    | .funcWord =>
      if (← secondKind) = .identifier then funcStatement n else fail finish .undecoratable
    | .decorator =>
      let pos ← here finish
      return .expr pos (← decorated n)
    | _ => fail finish .undecoratable

end

/-- The tokens from which parsing goes on after an error: what follows the next semicolon, or
the next token that can only start a statement. -/
def resume : List Token → List Token
  | [] => []
  | t :: ts =>
    match t.kind with
    | .semicolon => ts
    | .letWord | .returnWord | .useWord | .decorator => t :: ts
    | _ => resume ts

/-- The tokens from which parsing goes on after the statement that starts at `start` has failed
with the tokens `left` to read, of which the first is dropped if it is the one at `start`. -/
def resumeAfter (start : Position) (left : List Token) : List Token :=
  if left.head?.any fun t => t.position = start then resume left.tail else resume left

/-- The statements that can be parsed and the errors of those that cannot, for at most `n`
tries, each with the given fuel. -/
def statements (fuel : Nat) : Nat → List Token → List Stmt × List SyntaxError
  | 0, _ => ([], [])
  | _ + 1, [] => ([], [])
  | n + 1, t :: ts =>
    if t.kind = .semicolon then
      statements fuel n ts
    else
      match statement finish fuel (t :: ts) with
      | .ok s rest =>
        let (found, errors) := statements fuel n rest
        (s :: found, errors)
      | .error e rest =>
        let (found, errors) := statements fuel n (resumeAfter t.position rest)
        (found, e :: errors)

end Parse

/-- The program that a source text holds, without its malformed statements, and the errors of
those. -/
def Program.parse (text file : String) : Program × List SyntaxError :=
  let tokens := Source.tokens text
  let (found, errors) :=
    Parse.statements (Source.finish text) (10 * tokens.length + 10) tokens.length tokens
  (⟨found, file⟩, errors)

end Scriptlet
