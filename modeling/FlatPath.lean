import FlatPath.Main
import FlatPath.CommandLine.Files
import FlatPath.Bindings.Document
import FlatPath.Proofs.Operands
import FlatPath.Proofs.Stretches
import FlatPath.Proofs.Layout
import FlatPath.Proofs.ReadBack
import FlatPath.Proofs.RoundTrip
import FlatPath.Proofs.Rules
import FlatPath.Proofs.Violations
import FlatPath.Proofs.Encoding
import FlatPath.Proofs.EncodingSucceeds
import FlatPath.Proofs.Links
import FlatPath.Proofs.WellFormed
import FlatPath.Proofs.Verification
import FlatPath.Proofs.Workload
import FlatPath.Proofs.Acceptance
import FlatPath.Proofs.Loading
import FlatPath.Proofs.Tiling
import FlatPath.Proofs.CanonicalText
import FlatPath.Proofs.Statuses
import FlatPath.Proofs.MutabilityWalk
import FlatPath.Proofs.Readers
import FlatPath.Proofs.Reencoding
import FlatPath.Proofs.Classification
import FlatPath.Proofs.Reading
import FlatPath.Proofs.UniqueReading
import FlatPath.Proofs.Relocation
import FlatPath.Proofs.Spans
import FlatPath.Proofs.Framing
import FlatPath.Proofs.Curtailment
import FlatPath.Proofs.ReadingLimits
import FlatPath.Proofs.Verdicts
import FlatPath.Proofs.ZoneClasses
import FlatPath.Proofs.EncodingLimits
import FlatPath.Proofs.Nesting
import FlatPath.Proofs.Damage
import FlatPath.Proofs.Modes
import FlatPath.Proofs.Accessors
import FlatPath.Proofs.OutlineText
import FlatPath.Proofs.OutlineTree
import FlatPath.Proofs.JsonText
import FlatPath.Proofs.Interchange
import FlatPath.Proofs.Commands
import FlatPath.Proofs.Composition
import FlatPath.Proofs.Brackets
import FlatPath.Proofs.Parentheses
import FlatPath.Proofs.TemplateScan
import FlatPath.Proofs.Declarations
import FlatPath.Proofs.DocumentNesting
import FlatPath.Proofs.PatternCheck
import FlatPath.Proofs.BracketMatching
import FlatPath.Proofs.Sessions
import FlatPath.Proofs.Literals
import FlatPath.Proofs.Saving
