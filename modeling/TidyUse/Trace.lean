import TidyUse.Category
import TidyUse.Statement.Parser
import TidyUse.Target.Rename

/-!
# What a run reports

* `Diagnostic` : something worth noting, with its `level` and its `message`;
* `Logger` : the part of the program that notes it, by name;
* `Event` : a note, or a run of the external formatter;
* `Traced` : a value together with the events on the way to it.
-/

namespace TidyUse

inductive Level
  | debug
  | warning
deriving DecidableEq

def Level.name : Level → String
  | debug => "DEBUG"
  | warning => "WARNING"

/-- Something worth noting. Lines count from zero. -/
inductive Diagnostic
  | unterminated (line : Nat)
  | keptCommented (line : Nat)
  | keptMalformed (line : Nat) (reason : ParseError)
  | merged (count : Nat) (root : String)
  | notMerged (root : String) (reason : Conflict)
  | leftAsWritten (reason : Conflict)
  | summary (category : Category) (statements items : Nat)
  | droppedDiscard (key : String)
  | droppedStatement (root : String)
  | malformedPath (path : String)
  | severalCandidates (symbol : String) (count : Nat)
  | insertedAt (line : Nat)
  | separateBlocks (count : Nat)
  | noManifest (path : String)
  | unreadableManifest (path reason : String)
  | formatterMissing (program : String)
  | formatterUnusable (program reason : String)
  | formatterFailed (program output : String)

namespace Diagnostic

def level : Diagnostic → Level
  | notMerged .. | leftAsWritten .. | malformedPath .. | unreadableManifest ..
  | formatterMissing .. | formatterUnusable .. | formatterFailed .. => .warning
  | _ => .debug

def message : Diagnostic → String
  | unterminated line => "Unterminated use statement at line " ++ toString (line + 1)
  | keptCommented line =>
    "Keeping commented use statement at line " ++ toString (line + 1) ++ " as written"
  | keptMalformed line reason =>
    "Keeping malformed use statement at line " ++ toString (line + 1) ++ " as written: " ++
      reason.message
  | merged count root =>
    "Merged " ++ toString count ++ " statements rooted at " ++ Text.quoted root
  | notMerged root reason =>
    "Not merging imports of " ++ Text.quoted root ++ ": " ++ reason.message
  | leftAsWritten reason => "Leaving statement as written: " ++ reason.message
  | summary category statements items =>
    category.label ++ ": " ++ toString statements ++ " statement(s) importing " ++
      toString items ++ " item(s)"
  | droppedDiscard key => "Removing `" ++ key ++ " as _` in favor of `" ++ key ++ "`"
  | droppedStatement root => "Removing unused statement rooted at " ++ Text.quoted root
  | malformedPath path => "Ignoring malformed import path " ++ Text.quoted path
  | severalCandidates symbol count =>
    "Skipping " ++ symbol ++ ": " ++ toString count ++ " candidate imports"
  | insertedAt line => "Inserting imports at line " ++ toString (line + 1)
  | separateBlocks count => "Organized " ++ toString count ++ " blocks separately"
  | noManifest path => "No Cargo.toml found for " ++ path
  | unreadableManifest path reason => "Could not read " ++ path ++ ": " ++ reason
  | formatterMissing program => program ++ " not found, leaving imports unformatted"
  | formatterUnusable program reason => "Failed to run " ++ program ++ ": " ++ reason
  | formatterFailed program output => program ++ " failed: " ++ output

end Diagnostic

inductive Logger
  | scanner
  | merger
  | filter
  | organizer
  | manifest
  | formatter
  /-- A name chosen by the caller. The empty name is that of the root of all loggers. -/
  | named (name : String)

def Logger.name : Logger → String
  | scanner => "organize_rust_imports._scanner"
  | merger => "organize_rust_imports._merge"
  | filter => "organize_rust_imports._filters"
  | organizer => "organize_rust_imports._organize"
  | manifest => "organize_rust_imports._cargo"
  | formatter => "organize_rust_imports._rustfmt"
  | named name => if name.isEmpty then "root" else name

/-- A run of the external formatter on a text. -/
structure FormatterCall where
  program : String
  edition : String
  input : String

def FormatterCall.command (c : FormatterCall) : List String :=
  [c.program, "--emit", "stdout", "--edition", c.edition]

inductive Event
  | note (logger : Logger) (diagnostic : Diagnostic)
  | call (c : FormatterCall)

/-- A note on one line. -/
def Event.line? : Event → Option String
  | note logger d => some (d.level.name ++ " " ++ logger.name ++ ": " ++ d.message)
  | call _ => none

/-- A value, and what happened on the way to it, in order. -/
structure Traced (α : Type) where
  value : α
  events : List Event := []

namespace Traced

variable {α β : Type}

instance : Monad Traced where
  pure a := { value := a }
  bind x f := { value := (f x.value).value, events := x.events ++ (f x.value).events }

@[simp] theorem value_pure (a : α) : (pure a : Traced α).value = a := rfl

@[simp] theorem events_pure (a : α) : (pure a : Traced α).events = [] := rfl

@[simp] theorem value_bind (x : Traced α) (f : α → Traced β) :
    (x >>= f).value = (f x.value).value := rfl

@[simp] theorem events_bind (x : Traced α) (f : α → Traced β) :
    (x >>= f).events = x.events ++ (f x.value).events := rfl

def note (logger : Logger) (d : Diagnostic) : Traced Unit := { value := (), events := [.note logger d] }

/-- Applies a traced function to each member, in order, and joins the results. -/
def flatMap (f : α → Traced (List β)) : List α → Traced (List β)
  | [] => pure []
  | a :: as => do
    let bs ← f a
    let rest ← flatMap f as
    return bs ++ rest

@[simp] theorem value_flatMap (f : α → Traced (List β)) (as : List α) :
    (flatMap f as).value = as.flatMap fun a => (f a).value := by
  induction as with
  | nil => rfl
  | cons a as ih => simp [flatMap, ih]

theorem value_foldlM (f : β → α → Traced β) (b : β) (as : List α) :
    (as.foldlM f b).value = as.foldl (fun b a => (f b a).value) b := by
  induction as generalizing b with
  | nil => rfl
  | cons a as ih => rw [List.foldlM_cons, value_bind, ih, List.foldl_cons]

end Traced

end TidyUse
