import HostPattern.Json.Reader
import HostPattern.Main
import HostPattern.Proofs.Pattern.RoundTrip
import HostPattern.Proofs.SerialRange.Members
import HostPattern.Proofs.Wildcard.Expression
import HostPattern.Styled.Plain
import HostPattern.Text.FoldBytes
import HostPattern.Proofs.Pattern.Case
import HostPattern.Proofs.Pattern.Description
import HostPattern.Proofs.Pattern.Meaning
import HostPattern.Proofs.Text.Lossy
import HostPattern.Proofs.Traversal
import HostPattern.Proofs.FileTree.Order
import HostPattern.Proofs.FileTree.Ways
import HostPattern.Proofs.Folder.Listing
import HostPattern.Proofs.Folder.Matching
import HostPattern.Proofs.Run.Folders
import HostPattern.Proofs.CommandLine.Spelling
import HostPattern.Proofs.Folder.Scanned
import HostPattern.Proofs.CommandLine.RoundTrip
import HostPattern.Proofs.Run.Verdicts
import HostPattern.Proofs.Json.RoundTrip
import HostPattern.Proofs.Json.Members
import HostPattern.Proofs.Run.Question
import HostPattern.Proofs.Run.Presentation
import HostPattern.Proofs.SerialRange.Count
import HostPattern.Proofs.Styled.Sequences
import HostPattern.Proofs.Styled.Blocks
import HostPattern.Proofs.Json.Characters
import HostPattern.Proofs.Report.Calls
import HostPattern.Proofs.Json.Grammar
import HostPattern.Proofs.Json.Order
import HostPattern.Proofs.Report.Contents
import HostPattern.Proofs.Checked.Steps
import HostPattern.Proofs.Checked.Ranges
import HostPattern.Proofs.Checked.Patterns
import HostPattern.Proofs.Pattern.Sides
import HostPattern.Proofs.Run.FullDevice
import HostPattern.Proofs.Wildcard.Marks
import HostPattern.Proofs.SerialRange.Numbers
import HostPattern.Proofs.Text.Trim
import HostPattern.Proofs.MachineName.FirstSource
import HostPattern.Proofs.CommandLine.Positionals
import HostPattern.Proofs.Run.Names
