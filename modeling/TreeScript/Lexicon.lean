import TreeScript.Token
import Std.Data.TreeMap

/-!
# Lexicons

A lexicon is what a host may change about the words of the language: the table of
reserved words and the table of single-character marks.

* `Lexicon` — the two tables
* `Lexicon.standard` — the tables of the language as it comes
* `Lexicon.wordKind` — the kind of an identifier-shaped word
-/

namespace TreeScript

/-- The table of reserved words and the table of single-character marks. -/
structure Lexicon where
  keywords : Std.TreeMap String TokenKind
  marks : Std.TreeMap Char TokenKind

namespace Lexicon

/-- The reserved words of the language as it comes. -/
def standardKeywords : List (String × TokenKind) :=
  [("and", .andKeyword), ("break", .breakKeyword), ("class", .classKeyword),
   ("else", .elseKeyword), ("false", .falseKeyword), ("fun", .funKeyword),
   ("for", .forKeyword), ("if", .ifKeyword), ("nil", .nilKeyword), ("or", .orKeyword),
   ("print", .printKeyword), ("return", .returnKeyword), ("super", .superKeyword),
   ("this", .thisKeyword), ("true", .trueKeyword), ("var", .varKeyword),
   ("while", .whileKeyword)]

/-- The single-character marks of the language as it comes. -/
def standardMarks : List (Char × TokenKind) :=
  [('(', .leftParen), (')', .rightParen), ('\x7b', .leftBrace), ('\x7d', .rightBrace),
   (',', .comma), ('.', .dot), ('-', .minus), ('+', .plus), (';', .semicolon),
   ('*', .star), ('?', .question), (':', .colon), ('%', .percent)]

/-- The lexicon of the language as it comes. -/
def standard : Lexicon :=
  { keywords := Std.TreeMap.ofList standardKeywords
    marks := Std.TreeMap.ofList standardMarks }

/-- The kind of a reserved word. -/
def keyword? (lexicon : Lexicon) (word : String) : Option TokenKind :=
  lexicon.keywords[word]?

/-- The kind of a single-character mark. -/
def mark? (lexicon : Lexicon) (c : Char) : Option TokenKind :=
  lexicon.marks[c]?

/-- The kind of an identifier-shaped word: reserved, or else an identifier. -/
def wordKind (lexicon : Lexicon) (word : String) : TokenKind :=
  (lexicon.keyword? word).getD .identifier

end Lexicon

end TreeScript
