/-!
# Tokens of a use declaration

* `Token.Kind` : what a token is; `Kind.name` is how messages call it;
* `Token` : a kind, the text and the place of the text, by line and columns.
-/

namespace TidyUse

inductive Token.Kind
  | useWord | pubWord | asWord | selfWord | crateWord | superWord | inWord
  | identifier
  | pathSep | openBrace | closeBrace | comma | semicolon | star | openParen | closeParen
deriving DecidableEq

namespace Token.Kind

/-- The name of a kind. For all but identifiers it is the text of the token. -/
def name : Token.Kind → String
  | useWord => "use"
  | pubWord => "pub"
  | asWord => "as"
  | selfWord => "self"
  | crateWord => "crate"
  | superWord => "super"
  | inWord => "in"
  | identifier => "identifier"
  | pathSep => "::"
  | openBrace => "\x7b"
  | closeBrace => "\x7d"
  | comma => ","
  | semicolon => ";"
  | star => "*"
  | openParen => "("
  | closeParen => ")"

def keywords : List Token.Kind :=
  [useWord, pubWord, asWord, selfWord, crateWord, superWord, inWord]

/-- The kind of a word: a reserved word, or else an identifier. -/
def ofWord (word : String) : Token.Kind :=
  (keywords.find? fun k => k.name == word).getD identifier

/-- The kind of a mark of one character. -/
def ofMark? : Char → Option Token.Kind
  | '\x7b' => some openBrace
  | '\x7d' => some closeBrace
  | ',' => some comma
  | ';' => some semicolon
  | '*' => some star
  | '(' => some openParen
  | ')' => some closeParen
  | _ => none

def isSegment : Token.Kind → Bool
  | identifier | selfWord | crateWord | superWord => true
  | _ => false

end Token.Kind

/-- A token. Its line counts from the first line of the text, its columns from the line's start. -/
structure Token where
  kind : Token.Kind
  text : String
  line : Nat
  start : Nat
  stop : Nat
deriving DecidableEq

end TidyUse
