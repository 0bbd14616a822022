import MarkdownTree.Script.Request
import MarkdownTree.Proofs.Walk.Abort
import MarkdownTree.Proofs.Tree.Replace
import MarkdownTree.Proofs.Tree.ReplaceInline
import MarkdownTree.Proofs.Tree.Collect
import MarkdownTree.Proofs.Tree.Fold
import MarkdownTree.Proofs.Tree.Rebuild
import MarkdownTree.Proofs.Tree.Gathering
import MarkdownTree.Proofs.Tree.Observe
import MarkdownTree.Proofs.Tree.Settle
import MarkdownTree.Proofs.Tree.Commute
import MarkdownTree.Proofs.Tree.Substitute
import MarkdownTree.Proofs.Tree.Unwrap
import MarkdownTree.Proofs.Tree.Frame
import MarkdownTree.Proofs.Tree.Numbering
import MarkdownTree.Proofs.Tree.Fusion
import MarkdownTree.Proofs.Tree.Encode
import MarkdownTree.Proofs.Reading.Acceptance
import MarkdownTree.Proofs.Reading.PlainText
import MarkdownTree.Proofs.Reading.Inlined
import MarkdownTree.Proofs.Reading.Lenient
import MarkdownTree.Proofs.Reading.Range
import MarkdownTree.Proofs.Reading.Records
import MarkdownTree.Proofs.Reading.Lines
import MarkdownTree.Proofs.Reading.Resolve
import MarkdownTree.Proofs.Reading.Log
