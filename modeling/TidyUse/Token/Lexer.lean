import TidyUse.Token
import TidyUse.Text.Identifier
import TidyUse.Text.Space

/-!
# Reading tokens

A text is cut into lexemes from left to right. White space, comments and characters that open no
token are skipped, so that reading tokens never fails.

* `splitComment` : a text cut behind the first `*/`;
* `lexeme c cs` : the first lexeme of `c :: cs`; nothing is lost (`lexeme_append`);
* `tokenize` : the tokens of a text with their places.
-/

namespace TidyUse.Token

open Text

/-- Cuts a text behind the first `*/`. Without one, all of it belongs to the comment. -/
def splitComment : List Char → List Char × List Char
  | '*' :: '/' :: cs => (['*', '/'], cs)
  | c :: cs => let r := splitComment cs; (c :: r.1, r.2)
  | [] => ([], [])

theorem splitComment_append (cs : List Char) :
    (splitComment cs).1 ++ (splitComment cs).2 = cs := by
  fun_induction splitComment cs with
  | case1 => rfl
  | case2 c cs _ r ih => simpa [r] using ih
  | case3 => rfl

/-- A lexeme: what kind of token it is, if it is one, its characters behind the first, and the text
that follows it. -/
structure Lexeme where
  kind : Option Kind
  tail : List Char
  rest : List Char

def word (c : Char) (cs : List Char) : Lexeme :=
  let tail := cs.takeWhile isIdentContinue
  ⟨some (Kind.ofWord (String.ofList (c :: tail))), tail, cs.dropWhile isIdentContinue⟩

/-- The lexeme at `c` if it is a mark, a word or a character to skip. -/
def simpleLexeme (c : Char) (cs : List Char) : Lexeme :=
  match Kind.ofMark? c with
  | some kind => ⟨some kind, [], cs⟩
  | none => if isIdentStart c then word c cs else ⟨none, [], cs⟩

/-- The first lexeme of `c :: cs`. -/
def lexeme (c : Char) (cs : List Char) : Lexeme :=
  if isSpace c then ⟨none, [], cs⟩
  else
    match c, cs with
    | '/', '/' :: r => ⟨none, '/' :: r.takeWhile (· != '\n'), r.dropWhile (· != '\n')⟩
    | '/', '*' :: r => ⟨none, '*' :: (splitComment r).1, (splitComment r).2⟩
    | ':', ':' :: r => ⟨some .pathSep, [':'], r⟩
    | 'r', '#' :: d :: r =>
      if isIdentStart d then
        ⟨some .identifier, '#' :: d :: r.takeWhile isIdentContinue, r.dropWhile isIdentContinue⟩
      else simpleLexeme c cs
    | _, _ => simpleLexeme c cs

theorem simpleLexeme_append (c : Char) (cs : List Char) :
    (simpleLexeme c cs).tail ++ (simpleLexeme c cs).rest = cs := by
  unfold simpleLexeme
  split
  · rfl
  · split
    · simp [word]
    · rfl

/-- A lexeme and the text behind it make up the text. -/
theorem lexeme_append (c : Char) (cs : List Char) :
    (lexeme c cs).tail ++ (lexeme c cs).rest = cs := by
  unfold lexeme
  split
  · rfl
  · split
    · simp
    · simp [splitComment_append]
    · simp
    · split
      · simp
      · exact simpleLexeme_append ..
    · exact simpleLexeme_append ..

theorem length_lexeme_rest_le (c : Char) (cs : List Char) :
    (lexeme c cs).rest.length ≤ cs.length := by
  have h := congrArg List.length (lexeme_append c cs)
  rw [List.length_append] at h
  omega

/-- The line and the column behind some characters that start at a line and a column. -/
def advance (place : Nat × Nat) (cs : List Char) : Nat × Nat :=
  cs.foldl (fun p c => if c == '\n' then (p.1 + 1, 0) else (p.1, p.2 + 1)) place

/-- The tokens of a text that starts at a line and a column. -/
def lexFrom (place : Nat × Nat) : List Char → List Token
  | [] => []
  | c :: cs =>
    let first := lexeme c cs
    let following := lexFrom (advance place (c :: first.tail)) first.rest
    match first.kind with
    | some kind =>
      ⟨kind, String.ofList (c :: first.tail), place.1, place.2, place.2 + first.tail.length + 1⟩
        :: following
    | none => following
termination_by cs => cs.length
decreasing_by
  have := length_lexeme_rest_le c cs
  simp only [List.length_cons]
  omega

def tokenize (text : List Char) : List Token := lexFrom (0, 0) text

end TidyUse.Token
