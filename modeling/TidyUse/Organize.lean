import TidyUse.Document.Splice
import TidyUse.Formatter
import TidyUse.Group
import TidyUse.Suggestion
import TidyUse.Unused

/-!
# Organizing a document

* `Options` : what to do;
* `blockHeaders` : the text to keep, by the block that follows it;
* `renderRegion` : the imports of a document, block by block, each below the text kept before it;
* `organize` : a document with its imports organized.
-/

namespace TidyUse

structure Options where
  groupImports : Bool := true
  removeUnused : Bool := true
  autoImport : Bool := true
  useFormatter : Bool := false
  edition : String := "2021"

namespace Document

open Text

/-- The kept text inside the region, by the block of the declaration that follows it. -/
def blockHeaders (text : List Char) (scan : Scan) : List (Option Int × List String) :=
  let kept := scan.preserved.filter fun s => scan.region.any fun r => r.contains s
  let headed := kept.filterMap fun s =>
    (scan.statements.find? fun d => d.span.any fun t => decide (s.start < t.start)).map fun d =>
      (d.block, String.ofList (excerpt text s))
  (buckets Prod.fst headed).map fun b => (b.1, b.2.map Prod.snd)

structure Setting where
  deps : Option Dependencies := none
  options : Options := {}
  log : Logger := .organizer

/-- Declarations as text: merged and grouped, or one after the other. -/
def renderStatements (setting : Setting) (statements : List Statement) : Traced String :=
  if setting.options.groupImports then do
    let groups ← Group.organize setting.log setting.deps statements
    return String.ofList (dropLineEnds (Group.render groups).toList)
  else return "\n".intercalate (statements.map Statement.format)

/-- One block as text, below the text kept before it. There is nothing if both are empty. -/
def renderBlock (setting : Setting) (headers : List String) (statements : List Statement) :
    Traced (List String) := do
  let body ← renderStatements setting statements
  let parts := if body.isEmpty then headers else headers ++ [body]
  return if parts.isEmpty then [] else ["\n".intercalate parts]

/-- The imports of a document as text. What remains of each block is organized by itself, and the
added declarations join the first block. -/
def renderRegion (setting : Setting) (text : List Char) (scan : Scan)
    (statements added : List Statement) : Traced String := do
  let blocks := distinct (scan.statements.map Statement.block)
  let headers := blockHeaders text scan
  let sections ← Traced.flatMap (fun block =>
    renderBlock setting ((headers.lookup block).getD [])
      ((statements.filter fun s => s.block == block) ++
        if blocks.head? == some block then added else [])) blocks
  if 1 < blocks.length then
    Traced.note .organizer (.separateBlocks blocks.length)
  return "\n\n".intercalate sections

/-- The block run through the formatter, if that is asked for and there is any. -/
def formatBlock (formatter : Formatter) (options : Options) (block : String) : Guarded String :=
  if options.useFormatter && !block.isEmpty then
    formatter.format "rustfmt" options.edition block
  else return block

/-- A document with its imports organized, without those reported unused, and with those suggested.
A document without imports, to which none are added, stays as it is. -/
def organize (formatter : Formatter) (setting : Setting) (unused : Option (List Span))
    (suggestions : Option (List Suggestion)) (text : List Char) : Guarded (List Char) := do
  let options := setting.options
  let scan ← scan text
  let statements ←
    match options.removeUnused, unused with
    | true, some spans => Unused.filter spans scan.statements
    | _, _ => pure scan.statements
  let added ←
    match options.autoImport, suggestions with
    | true, some suggestions => Suggestion.statements suggestions
    | _, _ => pure []
  match scan.region with
  | none =>
    if added.isEmpty then return text
    let block ← renderStatements setting added
    let block ← formatBlock formatter options block
    insertBlock text block.toList
  | some region =>
    let block ← renderRegion setting text scan statements added
    let block ← formatBlock formatter options block
    return replaceRegion text region block.toList scan.trailingBlank

end Document

end TidyUse
