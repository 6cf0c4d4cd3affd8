import TinyScript.Main
import TinyScript.Proofs.Run.Relation
import TinyScript.Proofs.Run.Live
import TinyScript.Proofs.Run.Termination
import TinyScript.Proofs.Run.Budget
import TinyScript.Proofs.Tree.Reader
import TinyScript.Proofs.Tree.Stepwise
import TinyScript.Proofs.Tree.Grammar
import TinyScript.Proofs.Tree.Soundness
import TinyScript.Proofs.Tree.Completeness
import TinyScript.Proofs.Tree.Acceptance
import TinyScript.Proofs.Tree.Levels
import TinyScript.Proofs.Tree.Truncation
import TinyScript.Proofs.Token.Lines
import TinyScript.Proofs.Repl.Continuation
import TinyScript.Proofs.Heap
import TinyScript.Proofs.Run.Scopes
import TinyScript.Proofs.Tree.Reports
import TinyScript.Proofs.Repl.Chunks
import TinyScript.Proofs.Token.Relocation
import TinyScript.Proofs.Tree.Relocation
import TinyScript.Proofs.Tree.Concatenation
import TinyScript.Proofs.Run.Relocation
import TinyScript.Proofs.Session.Pieces
import TinyScript.Proofs.Tree.Targets
import TinyScript.Proofs.Tree.Completion
import TinyScript.Proofs.Tree.Kinds
import TinyScript.Proofs.Tree.Room
import TinyScript.Proofs.Repl.Hope
import TinyScript.Proofs.Token.Seam
import TinyScript.Proofs.Token.Lossless
import TinyScript.Proofs.Session.Layout
import TinyScript.Proofs.Tree.Runnable
import TinyScript.Proofs.Run.Guarded
import TinyScript.Proofs.Run.Safety
import TinyScript.Proofs.Tree.Lockstep
import TinyScript.Proofs.Tree.Recovery
import TinyScript.Proofs.Tree.Surroundings
import TinyScript.Proofs.Session.Returns
import TinyScript.Proofs.Tree.Places
import TinyScript.Proofs.Run.Pairing
import TinyScript.Proofs.Run.Beside
import TinyScript.Proofs.Session.Reports
import TinyScript.Proofs.Run.ForLoop
import TinyScript.Proofs.Session.Isolation
import TinyScript.Proofs.Token.Positions
import TinyScript.Proofs.Text.Utf8
import TinyScript.Proofs.Token.Lexical
import TinyScript.Proofs.Token.Munch
import TinyScript.Proofs.Text
import TinyScript.Proofs.Decimal
import TinyScript.Proofs.Text.Quoted
import TinyScript.Proofs.Tree.Material
import TinyScript.Proofs.Text.Sexp
import TinyScript.Proofs.Tree.Written
import TinyScript.Proofs.Tree.Forms
import TinyScript.Proofs.Token.Faults
import TinyScript.Proofs.Tree.Walk
import TinyScript.Proofs.Tree.Progress
import TinyScript.Proofs.Session.Spans
import TinyScript.Proofs.Run.Traced
import TinyScript.Proofs.Run.Control
import TinyScript.Proofs.Run.Loopless
import TinyScript.Proofs.Command.Relay
import TinyScript.Proofs.Json
import TinyScript.Proofs.Command.Status
import TinyScript.Proofs.Heap.Visibility
import TinyScript.Proofs.Token.Respelling
import TinyScript.Proofs.Double
import TinyScript.Proofs.Session.Numbers
import TinyScript.Proofs.Tree.Numbers
import TinyScript.Proofs.Command.Documents
