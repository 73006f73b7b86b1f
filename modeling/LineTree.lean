import LineTree.Main
import LineTree.Token.Path
import LineTree.Scan.Lemmas
import LineTree.Proofs.Form
import LineTree.Proofs.Growth
import LineTree.Proofs.Closing
import LineTree.Proofs.Stack
import LineTree.Proofs.Step
import LineTree.Proofs.Invariant
import LineTree.Proofs.Finish
import LineTree.Proofs.Tiling
import LineTree.Proofs.Lexeme
import LineTree.Proofs.Reports
import LineTree.Proofs.Monitor
import LineTree.Proofs.Account
import LineTree.Proofs.Runs
import LineTree.Proofs.Neighbours
import LineTree.Proofs.Origin
import LineTree.Proofs.Excerpt
import LineTree.Proofs.Checked
import LineTree.Proofs.Siblings
import LineTree.Proofs.Decoding
import LineTree.Proofs.Segments
import LineTree.Proofs.Outputs
import LineTree.Proofs.Continuation
import LineTree.Proofs.Concatenation
import LineTree.Proofs.Dumped
import LineTree.Proofs.JsonReading
import LineTree.Proofs.TreeReading
import LineTree.Proofs.Delivered
import LineTree.Proofs.Innermost
import LineTree.Proofs.Painted
import LineTree.Proofs.Quotation
import LineTree.Proofs.Cleaned
import LineTree.Proofs.Rows
import LineTree.Proofs.NumberValue
import LineTree.Proofs.Announced
import LineTree.Proofs.Notices
import LineTree.Proofs.Traversal
import LineTree.Proofs.Offsets
import LineTree.Proofs.Comments
