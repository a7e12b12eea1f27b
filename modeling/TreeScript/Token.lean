import TreeScript.Number.Text

/-!
# Tokens

* `TokenKind` — the categories of tokens, each with a listed name
* `Literal` — the payload of number and string tokens
* `Token` — a kind, the exact text it was cut from, its payload and its line
-/

namespace TreeScript

/-! ## Kinds -/

/-- The category of a token.  Kinds carry no data. -/
inductive TokenKind where
  | leftParen | rightParen | leftBrace | rightBrace
  | comma | dot | minus | plus | semicolon | slash | star | question | colon | percent
  | bang | bangEqual | equal | equalEqual | greater | greaterEqual | less | lessEqual
  | identifier | string | number
  | andKeyword | breakKeyword | classKeyword | elseKeyword | falseKeyword | funKeyword
  | forKeyword | ifKeyword | nilKeyword | orKeyword | printKeyword | returnKeyword
  | superKeyword | thisKeyword | trueKeyword | varKeyword | whileKeyword
  | endOfInput
  deriving DecidableEq, Repr, Inhabited

namespace TokenKind

/-- The name under which a kind is listed and configured. -/
def name : TokenKind → String
  | leftParen => "LEFT_PAREN"
  | rightParen => "RIGHT_PAREN"
  | leftBrace => "LEFT_BRACE"
  | rightBrace => "RIGHT_BRACE"
  | comma => "COMMA"
  | dot => "DOT"
  | minus => "MINUS"
  | plus => "PLUS"
  | semicolon => "SEMICOLON"
  | slash => "SLASH"
  | star => "STAR"
  | question => "QUESTION"
  | colon => "COLON"
  | percent => "PERCENT"
  | bang => "BANG"
  | bangEqual => "BANG_EQUAL"
  | equal => "EQUAL"
  | equalEqual => "EQUAL_EQUAL"
  | greater => "GREATER"
  | greaterEqual => "GREATER_EQUAL"
  | less => "LESS"
  | lessEqual => "LESS_EQUAL"
  | identifier => "IDENTIFIER"
  | string => "STRING"
  | number => "NUMBER"
  | andKeyword => "AND"
  | breakKeyword => "BREAK"
  | classKeyword => "CLASS"
  | elseKeyword => "ELSE"
  | falseKeyword => "FALSE"
  | funKeyword => "FUN"
  | forKeyword => "FOR"
  | ifKeyword => "IF"
  | nilKeyword => "NIL"
  | orKeyword => "OR"
  | printKeyword => "PRINT"
  | returnKeyword => "RETURN"
  | superKeyword => "SUPER"
  | thisKeyword => "THIS"
  | trueKeyword => "TRUE"
  | varKeyword => "VAR"
  | whileKeyword => "WHILE"
  | endOfInput => "EOF"

/-- Every kind, in the order of declaration. -/
def all : List TokenKind :=
  [leftParen, rightParen, leftBrace, rightBrace,
   comma, dot, minus, plus, semicolon, slash, star, question, colon, percent,
   bang, bangEqual, equal, equalEqual, greater, greaterEqual, less, lessEqual,
   identifier, string, number,
   andKeyword, breakKeyword, classKeyword, elseKeyword, falseKeyword, funKeyword,
   forKeyword, ifKeyword, nilKeyword, orKeyword, printKeyword, returnKeyword,
   superKeyword, thisKeyword, trueKeyword, varKeyword, whileKeyword,
   endOfInput]

/-- The kind of a given name. -/
def ofName? (text : String) : Option TokenKind :=
  all.find? (fun kind => kind.name == text)

end TokenKind

/-! ## Tokens -/

/-- The payload of a number or string token. -/
inductive Literal where
  | number (value : Float)
  | string (value : String)
  deriving Repr

/-- The text of a payload in a token listing. -/
def Literal.text : Literal → String
  | .number value => Number.literalText value
  | .string value => value

/-- A token: its kind, the exact text it was cut from, its payload if it has one,
and the line, counted from 1, on which that text ends. -/
structure Token where
  kind : TokenKind
  lexeme : String
  literal : Option Literal
  line : Nat
  deriving Repr

namespace Token

/-- The mark after the last token of a source. -/
def finish (line : Nat) : Token :=
  { kind := .endOfInput, lexeme := "", literal := none, line }

/-- The line of a token listing: kind, lexeme and payload. -/
def text (t : Token) : String :=
  t.kind.name ++ " " ++ t.lexeme ++ " " ++ (t.literal.map Literal.text).getD "null"

end Token

end TreeScript
