import IntervalSuite.Main
import IntervalSuite.Proofs.Itl.Constant
import IntervalSuite.Proofs.Itl.Scanning
import IntervalSuite.Proofs.Fallible
import IntervalSuite.Proofs.Itl.Grammar
import IntervalSuite.Proofs.Itl.Tiling
import IntervalSuite.Proofs.Itl.Parsing
import IntervalSuite.Proofs.Itl.Printing
import IntervalSuite.Proofs.Itl.RoundTrip
import IntervalSuite.Proofs.Template.Filling
import IntervalSuite.Proofs.Template.Trimming
import IntervalSuite.Proofs.Generation.Reference
import IntervalSuite.Proofs.Generation.Refinement
import IntervalSuite.Proofs.Generation.Dropping
import IntervalSuite.Proofs.Specification.Isolation
import IntervalSuite.Proofs.FileTree.Writing
import IntervalSuite.Proofs.FileTree.Naming
import IntervalSuite.Proofs.Plugin.Discovery
import IntervalSuite.Proofs.Run.Progress
import IntervalSuite.Proofs.Run.Plan
import IntervalSuite.Proofs.Run.Effect
import IntervalSuite.Proofs.Specification.Matching
import IntervalSuite.Proofs.Text.Bytes
import IntervalSuite.Proofs.Itl.Signature
import IntervalSuite.Proofs.Specification.Preference
import IntervalSuite.Proofs.Generation.Coverage
import IntervalSuite.Proofs.Template.Expansion
import IntervalSuite.Proofs.Itl.Stability
import IntervalSuite.Proofs.Generation.Carrying
import IntervalSuite.Proofs.Template.Simultaneous
import IntervalSuite.Proofs.Template.Laziness
import IntervalSuite.Proofs.Generation.Demand
import IntervalSuite.Proofs.Itl.Suffix
import IntervalSuite.Proofs.Itl.Outline
import IntervalSuite.Proofs.Itl.Prediction
import IntervalSuite.Proofs.Itl.Lookahead
import IntervalSuite.Proofs.Itl.Faults
import IntervalSuite.Proofs.Generation.Signatures
import IntervalSuite.Proofs.Plugin.Expansion
import IntervalSuite.Proofs.Plugin.Spelling
import IntervalSuite.Proofs.Run.Overwriting
import IntervalSuite.Proofs.Itl.Cursor
import IntervalSuite.Proofs.Itl.Safety
import IntervalSuite.Proofs.Pattern.Guarded
import IntervalSuite.Proofs.Pattern.Reading
import IntervalSuite.Proofs.Pattern.Fuel
import IntervalSuite.Proofs.Pattern.Enclosing
import IntervalSuite.Proofs.Pattern.Anchoring
import IntervalSuite.Proofs.Plugin.Filtering
