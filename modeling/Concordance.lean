import Concordance.Main
import Concordance.Proofs.Children
import Concordance.Proofs.Trie.WellFormed
import Concordance.Proofs.Trie.Contents
import Concordance.Proofs.Snapshot.Reader
import Concordance.Proofs.Trie.History
import Concordance.Proofs.Query.Answer
import Concordance.Proofs.Json.Document
import Concordance.Proofs.Query.Grammar
import Concordance.Proofs.DocId
import Concordance.Proofs.Snapshot.Writer
import Concordance.Proofs.Snapshot.RoundTrip
import Concordance.Proofs.Trie.Nodes
import Concordance.Proofs.CommandLine.Calls
import Concordance.Proofs.Snapshot.Acceptance
import Concordance.Proofs.Trie.Canonical
import Concordance.Proofs.Query.Printing
import Concordance.Proofs.Json.Stub
import Concordance.Proofs.Json.Torn
import Concordance.Proofs.Session.Runs
import Concordance.Proofs.Snapshot.Torn
import Concordance.Proofs.Snapshot.Agreement
import Concordance.Proofs.Files.Directories
import Concordance.Proofs.Session.Saving
import Concordance.Proofs.CommandLine.OneShot
import Concordance.Proofs.Session.Lines
import Concordance.Proofs.Session.Conversation
import Concordance.Proofs.Snapshot.Inverse
import Concordance.Proofs.Trie.Counts
import Concordance.Proofs.Session.Words
import Concordance.Proofs.Session.Sharing
import Concordance.Proofs.Query.Exchange
import Concordance.Proofs.Snapshot.Misplaced
import Concordance.Proofs.Query.Verdict
import Concordance.Proofs.DocId.Numerals
import Concordance.Proofs.Session.Spacing
import Concordance.Proofs.Session.Framing
import Concordance.Proofs.Config
import Concordance.Proofs.Arena.Nodes
import Concordance.Proofs.Arena.Counts
import Concordance.Proofs.Arena.Layout
import Concordance.Proofs.Arena.Inverse
