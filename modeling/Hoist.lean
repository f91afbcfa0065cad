import Hoist.Compile
import Hoist.Diagnostic
import Hoist.Discovery
import Hoist.Entity
import Hoist.Event
import Hoist.Hoisting
import Hoist.Lowered
import Hoist.Move
import Hoist.Node
import Hoist.Program
import Hoist.Program.Check
import Hoist.Program.Edit
import Hoist.Program.Order
import Hoist.Program.Printer
import Hoist.Program.Violation
import Hoist.Proofs.Ancestry
import Hoist.Proofs.Appending
import Hoist.Proofs.Atomicity
import Hoist.Proofs.Checking
import Hoist.Proofs.Compiling
import Hoist.Proofs.Declaring
import Hoist.Proofs.Destination
import Hoist.Proofs.Diagnosis
import Hoist.Proofs.Enclosure
import Hoist.Proofs.Environment
import Hoist.Proofs.Findings
import Hoist.Proofs.Flattening
import Hoist.Proofs.Growth
import Hoist.Proofs.HoistedTree
import Hoist.Proofs.Links
import Hoist.Proofs.Lowering
import Hoist.Proofs.Moving
import Hoist.Proofs.Naming
import Hoist.Proofs.Obstacles
import Hoist.Proofs.Performing
import Hoist.Proofs.PlainLists
import Hoist.Proofs.Planting
import Hoist.Proofs.Printing
import Hoist.Proofs.References
import Hoist.Proofs.Regular
import Hoist.Proofs.Relinking
import Hoist.Proofs.Reordering
import Hoist.Proofs.Reporting
import Hoist.Proofs.Reversal
import Hoist.Proofs.ScopeStack
import Hoist.Proofs.Scoping
import Hoist.Proofs.Sequencing
import Hoist.Proofs.SourceHoisting
import Hoist.Proofs.Stages
import Hoist.Proofs.Stepwise
import Hoist.Proofs.Stored
import Hoist.Proofs.Surroundings
import Hoist.Proofs.Survey
import Hoist.Proofs.Trails
import Hoist.Proofs.Traversal
import Hoist.Proofs.Untouched
import Hoist.Proofs.Visiting
import Hoist.Resolved
import Hoist.Resolver
import Hoist.Source
import Hoist.Symbol
import Hoist.Table
import Hoist.Text.Quoted
import Hoist.Text.Unprintable
import Hoist.Tree
