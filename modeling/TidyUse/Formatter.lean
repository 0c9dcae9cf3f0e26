import TidyUse.Fault
import TidyUse.Text.Space

/-!
# The external formatter

* `Formatter` : a program that may be there or not, and answers each call;
* `Formatter.format` : the text it makes of another, or that other if it fails, unless the call
  breaks off.
-/

namespace TidyUse

inductive FormatterReply
  /-- The program cannot be run. -/
  | unusable (reason : String)
  /-- The call breaks off: an argument holds a null character, or what the program says is no text. -/
  | broken (reason : String)
  | finished (code : Int) (output errors : String)

structure Formatter where
  /-- There is a program of this name. -/
  isAvailable : String → Bool
  reply : FormatterCall → FormatterReply

namespace Formatter

/-- A formatter that is not installed. -/
def absent : Formatter := ⟨fun _ => false, fun _ => .unusable ""⟩

/-- The formatted text. If the formatter is missing, fails or says nothing, the text stays. -/
def format (f : Formatter) (program edition text : String) : Guarded String :=
  if f.isAvailable program then do
    let call : FormatterCall := ⟨program, edition, text⟩
    { value := (), events := [.call call] : Traced Unit }
    match f.reply call with
    | .unusable reason =>
      Traced.note .formatter (.formatterUnusable program reason)
      return text
    | .broken reason => throw (.brokenCall reason)
    | .finished code output errors =>
      if code ≠ 0 ∨ output.isEmpty then
        Traced.note .formatter (.formatterFailed program (Text.trimmed errors))
        return text
      else return Text.trimmed output ++ "\n"
  else do
    Traced.note .formatter (.formatterMissing program)
    return text

end Formatter

end TidyUse
