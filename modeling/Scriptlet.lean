import Scriptlet.Grammar.Parser
import Scriptlet.Tree.Printer
import Scriptlet.Tree.Label
import Scriptlet.Scope
import Scriptlet.Fault
import Scriptlet.Console
import Scriptlet.Main
import Scriptlet.Proofs.RoundTrip
import Scriptlet.Proofs.Recovery
import Scriptlet.Proofs.Frame
import Scriptlet.Proofs.Arrival
import Scriptlet.Proofs.Raising
import Scriptlet.Proofs.Vivification
import Scriptlet.Proofs.BranchScopes
import Scriptlet.Proofs.Descent
import Scriptlet.Proofs.Splitting
import Scriptlet.Proofs.Tiling
import Scriptlet.Proofs.Joining
import Scriptlet.Proofs.Accord
import Scriptlet.Proofs.Hiding
import Scriptlet.Proofs.Refusals
import Scriptlet.Proofs.Steps
import Scriptlet.Proofs.Strictness
import Scriptlet.Proofs.Shrinking
import Scriptlet.Proofs.Layout
import Scriptlet.Proofs.Reporting
import Scriptlet.Proofs.Readback
import Scriptlet.Proofs.Dialogue
import Scriptlet.Proofs.Attempts
import Scriptlet.Proofs.Deques
import Scriptlet.Proofs.Operands
import Scriptlet.Proofs.Arithmetic
import Scriptlet.Proofs.Sameness
import Scriptlet.Proofs.Shadowing
import Scriptlet.Proofs.Functionless
import Scriptlet.Proofs.Quoting
import Scriptlet.Proofs.Shortcuts
