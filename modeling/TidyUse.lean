import TidyUse.Main
import TidyUse.Proofs.Canonical
import TidyUse.Proofs.KeptLines
import TidyUse.Proofs.Idempotence
import TidyUse.Proofs.Spans
import TidyUse.Proofs.Grammar
import TidyUse.Proofs.Continuation
import TidyUse.Proofs.Frame
import TidyUse.Proofs.Pieces
import TidyUse.Proofs.InPlace
import TidyUse.Proofs.Rebuilding
import TidyUse.Proofs.Removal
import TidyUse.Proofs.Reordering
import TidyUse.Proofs.Braces
import TidyUse.Proofs.Insertion
import TidyUse.Proofs.Partition
import TidyUse.Proofs.Priority
import TidyUse.Proofs.SortedTrees
import TidyUse.Proofs.Tokens
import TidyUse.Proofs.Declared
import TidyUse.Proofs.Fixing
