import TidyUse.Statement
import TidyUse.Token.Lexer

/-!
# Reading a use declaration

A reader takes tokens from the front of a list. It leaves the tokens it did not take behind, also
when it fails, so that a reader may be tried and the rest inspected.

* `ParseError` : why a text is no use declaration, and its `message`;
* `Parser.tree`, `Parser.treeList`, `Parser.declaration` : the parts of the grammar;
* `Statement.parse` : a declaration from its text.
-/

namespace TidyUse

inductive ParseError
  | endOfInput
  /-- A token of this kind should stand here; the text of the token found, if any. -/
  | expected (kind : Token.Kind) (found : Option String)
  | noSegment (found : String)
  /-- Nothing follows `pub(in`. -/
  | noPath
  /-- A `*` at the root. -/
  | bareGlob
  | renameInside (rename : String)
  | emptyBraces
  /-- This token follows a complete declaration. -/
  | trailing (found : String)
deriving DecidableEq

def ParseError.message : ParseError → String
  | endOfInput => "Unexpected end of input"
  | expected kind found =>
    "Expected " ++ Text.quoted kind.name ++ " but got " ++ Text.quoted (found.getD "end of input")
  | noSegment found => "Expected a path segment but got " ++ Text.quoted found
  | noPath => "Expected a path after 'pub(in'"
  | bareGlob => "Glob import needs a path"
  | renameInside rename => "Alias " ++ Text.quoted rename ++ " must come last in a path"
  | emptyBraces => "Empty braces"
  | trailing found => "Unexpected " ++ Text.quoted found ++ " after use tree"

abbrev Parser := ExceptT ParseError (StateM (List Token))

namespace Parser

/-- The answer of a reader on some tokens, and the tokens it leaves. -/
def runOn {α : Type} (p : Parser α) (tokens : List Token) : Except ParseError α × List Token :=
  (ExceptT.run p).run tokens

/-! ## Single tokens -/

def peek (offset : Nat) : Parser (Option Token) := return (← get)[offset]?

def current : Parser (Option Token) := peek 0

def advance : Parser Token := do
  match ← get with
  | [] => throw .endOfInput
  | token :: rest =>
    set rest
    return token

def expect (kind : Token.Kind) : Parser Token := do
  match ← get with
  | [] => throw (.expected kind none)
  | token :: rest =>
    if token.kind = kind then
      set rest
      return token
    else throw (.expected kind (some token.text))

def isNext (kind : Token.Kind) : Parser Bool :=
  return (← get).head?.any fun token => token.kind == kind

def spanOf (base : Position) (token : Token) : Span :=
  let column : Int := if token.line = 0 then base.column else 0
  let line := base.line + token.line
  ⟨⟨line, column + token.start⟩, ⟨line, column + token.stop⟩⟩

/-! ## Parts of a declaration -/

/-- Takes the tokens before the next closing parenthesis and gives their texts. -/
def restriction : Parser (List String) := do
  let tokens ← get
  let inside := tokens.takeWhile fun token => token.kind != .closeParen
  let rest := tokens.dropWhile fun token => token.kind != .closeParen
  set rest
  if rest.isEmpty then throw .endOfInput
  return inside.map Token.text

/-- An optional `pub`, `pub(word)` or `pub(in path)`. -/
def visibility : Parser (Option String) := do
  unless ← isNext .pubWord do return none
  let _ ← advance
  unless ← isNext .openParen do return some "pub"
  let _ ← advance
  let inside ←
    if ← isNext .inWord then do
      let _ ← advance
      let parts ← restriction
      if parts.isEmpty then throw .noPath
      pure ("in " ++ String.join parts)
    else do
      let token ← advance
      pure token.text
  let _ ← expect .closeParen
  return some ("pub(" ++ inside ++ ")")

/-- An optional `as name`. -/
def rename : Parser (Option String) := do
  unless ← isNext .asWord do return none
  let _ ← advance
  let token ← expect .identifier
  return some token.text

/-- A step of a path with an optional rename. -/
def segment (base : Position) : Parser Segment := do
  let token ← advance
  unless token.kind.isSegment do throw (.noSegment token.text)
  let rename ← rename
  return ⟨token.text, rename, some (spanOf base token)⟩

def glob (base : Position) : Parser UseTree := do
  let token ← advance
  return .glob ⟨UseTree.globName, none, some (spanOf base token)⟩

/-- A `self` that starts no path, with an optional rename. -/
def selfLeaf (base : Position) : Parser UseTree := do
  let token ← advance
  let rename ← rename
  return .node ⟨UseTree.selfName, rename, some (spanOf base token)⟩ []

/-- The next token is a `self` that starts no path. -/
def startsSelfLeaf : Parser Bool := do
  let following ← peek 1
  return (← isNext .selfWord) && !following.any fun token => token.kind == .pathSep

mutual

/-- A use tree, read with bounded depth. At the root, `nested` is false: a `*` may not stand there,
and a `self` is an ordinary segment. -/
def treeWithin (base : Position) : Nat → (nested : Bool) → Parser UseTree
  | 0, _ => throw .endOfInput
  | depth + 1, nested => do
    if (← current).isNone then throw .endOfInput
    if ← isNext .star then
      if nested then glob base else throw .bareGlob
    else if nested && (← startsSelfLeaf) then selfLeaf base
    else
      let step ← segment base
      unless ← isNext .pathSep do return .node step []
      let _ ← advance
      if let some name := step.rename then throw (.renameInside name)
      if ← isNext .openBrace then
        let _ ← advance
        let children ← treeListWithin base depth
        let _ ← expect .closeBrace
        return .node step children
      else
        let child ← treeWithin base depth true
        return .node step [child]

/-- Use trees between commas, up to a closing brace, read with bounded depth. -/
def treeListWithin (base : Position) : Nat → Parser (List UseTree)
  | 0 => throw .endOfInput
  | depth + 1 => do
    if ← isNext .closeBrace then throw .emptyBraces
    let first ← treeWithin base depth true
    unless ← isNext .comma do return [first]
    let _ ← advance
    if ← isNext .closeBrace then return [first]
    return first :: (← treeListWithin base depth)

end

/-- A depth that no tree of the tokens at hand exceeds: each level takes a token. -/
def depth : Parser Nat := return (← get).length + 2

def tree (base : Position) (nested : Bool) : Parser UseTree := do
  treeWithin base (← depth) nested

def treeList (base : Position) : Parser (List UseTree) := do
  treeListWithin base (← depth)

/-- A whole declaration: visibility, `use`, a tree and an optional semicolon, with nothing behind. -/
def declaration (base : Position) : Parser (Option String × UseTree) := do
  let visibility ← visibility
  let _ ← expect .useWord
  let tree ← tree base false
  if ← isNext .semicolon then
    let _ ← advance
  if let some token ← current then throw (.trailing token.text)
  return (visibility, tree)

end Parser

/-- Reads a declaration. With a span, its text starts there in the document. -/
def Statement.parse (text : List Char) (attributes : List String := [])
    (span : Option Span := none) (block : Option Int := none) : Except ParseError Statement := do
  let base := (span.map Span.start).getD ⟨0, 0⟩
  let (visibility, tree) ← ((Parser.declaration base).runOn (Token.tokenize text)).1
  return { tree, visibility, attributes, span, block }

end TidyUse
