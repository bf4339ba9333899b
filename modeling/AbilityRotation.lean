import AbilityRotation.Ability.Data
import AbilityRotation.Ability.Database
import AbilityRotation.Ability.Effective
import AbilityRotation.Ability.Overrides
import AbilityRotation.Ability.Threshold
import AbilityRotation.Fault
import AbilityRotation.Journal.Context
import AbilityRotation.Journal.Log
import AbilityRotation.Kind
import AbilityRotation.Main
import AbilityRotation.Modifier.Basic
import AbilityRotation.Modifier.Catalog
import AbilityRotation.Modifier.Derivation
import AbilityRotation.Modifier.Fusion
import AbilityRotation.Notice
import AbilityRotation.Number.Binary64
import AbilityRotation.Number.Decimal
import AbilityRotation.Number.Whole
import AbilityRotation.Proofs.Canonical.Arrangement
import AbilityRotation.Proofs.Canonical.Symbols
import AbilityRotation.Proofs.Canonical.Trees
import AbilityRotation.Proofs.Descent.Joining
import AbilityRotation.Proofs.Descent.Operands
import AbilityRotation.Proofs.Descent.Reads
import AbilityRotation.Proofs.Grammar.Derivation
import AbilityRotation.Proofs.Grammar.Recognition
import AbilityRotation.Proofs.Modifier.Default
import AbilityRotation.Proofs.Text.Trimming
import AbilityRotation.Raw.Basic
import AbilityRotation.Raw.Coercion
import AbilityRotation.Raw.Order
import AbilityRotation.Report
import AbilityRotation.Rotation.Address
import AbilityRotation.Rotation.Basic
import AbilityRotation.Rotation.Descent
import AbilityRotation.Rotation.Diagnostic
import AbilityRotation.Rotation.Export
import AbilityRotation.Rotation.Parse
import AbilityRotation.Rotation.Render
import AbilityRotation.Rotation.Resolution
import AbilityRotation.Settings.Payload
import AbilityRotation.Settings.Split
import AbilityRotation.Table
import AbilityRotation.Text.Alphanumeric
import AbilityRotation.Text.Blank
import AbilityRotation.Text.CodeRange
import AbilityRotation.Text.Digit
import AbilityRotation.Text.Lines
import AbilityRotation.Text.LowerCase
import AbilityRotation.Text.Printable
import AbilityRotation.Text.Quoted
import AbilityRotation.Text.Wildcard
import AbilityRotation.Timing.Profile
import AbilityRotation.Timing.Snapshot
import AbilityRotation.Timing.StepTimer
import AbilityRotation.Token
import AbilityRotation.Token.Boundary
import AbilityRotation.Token.Lexeme
import AbilityRotation.Proofs.Canonical.Legible
import AbilityRotation.Proofs.Canonical.Rereading
import AbilityRotation.Proofs.Canonical.Scanning
import AbilityRotation.Proofs.Settings.Splitting
import AbilityRotation.Proofs.Canonical.RoundTrip
import AbilityRotation.Proofs.Number.Rounding
import AbilityRotation.Proofs.Number.Decimal
import AbilityRotation.Proofs.Settings.Payload
import AbilityRotation.Proofs.Settings.Lines
import AbilityRotation.Proofs.Canonical.Export
import AbilityRotation.Proofs.Timing.Operations
import AbilityRotation.Proofs.Timing.Stopwatch
import AbilityRotation.Proofs.Timing.Origin
import AbilityRotation.Proofs.Number.UnitInterval
import AbilityRotation.Proofs.Resolution.Precedence
import AbilityRotation.Proofs.Modifier.Built
import AbilityRotation.Proofs.Descent.Uses
import AbilityRotation.Proofs.Descent.Labelled
import AbilityRotation.Proofs.Modifier.Coherent
import AbilityRotation.Proofs.Modifier.Replaced
import AbilityRotation.Proofs.Rotation.Occurrences
import AbilityRotation.Proofs.Rotation.Diagnostics
import AbilityRotation.Proofs.Resolution.Steps
import AbilityRotation.Proofs.Resolution.Outcomes
import AbilityRotation.Proofs.Rotation.Accepted
import AbilityRotation.Proofs.Timing.Duration
import AbilityRotation.Proofs.Timing.Slowest
import AbilityRotation.Proofs.Descent.Neighbours
import AbilityRotation.Proofs.Descent.Fusions
import AbilityRotation.Proofs.Descent.Chains
import AbilityRotation.Proofs.Descent.Stops
import AbilityRotation.Proofs.Descent.Passage
import AbilityRotation.Proofs.Rotation.Depth
import AbilityRotation.Proofs.Descent.Shape
import AbilityRotation.Proofs.Canonical.Unlabelled
import AbilityRotation.Proofs.Canonical.Apart
import AbilityRotation.Proofs.Canonical.PlainExport
import AbilityRotation.Proofs.Ability.Merging
import AbilityRotation.Proofs.Ability.Layers
import AbilityRotation.Proofs.Settings.Sanitized
import AbilityRotation.Proofs.Settings.Joining
import AbilityRotation.Proofs.Settings.Interleaving
import AbilityRotation.Proofs.Timing.Consistency
import AbilityRotation.Proofs.Grammar.Tooltips
import AbilityRotation.Proofs.Rotation.Faults
import AbilityRotation.Proofs.Grammar.Annotation
import AbilityRotation.Proofs.Token.Passages
import AbilityRotation.Proofs.Token.Insertion
import AbilityRotation.Proofs.Settings.Insertion
import AbilityRotation.Proofs.Rotation.Annotated
import AbilityRotation.Proofs.Raw.Fields
import AbilityRotation.Proofs.Ability.Records
import AbilityRotation.Proofs.Modifier.Records
import AbilityRotation.Proofs.Number.Range
import AbilityRotation.Proofs.Raw.Readable
import AbilityRotation.Proofs.Rotation.LabelSettings
import AbilityRotation.Proofs.Descent.Cursor
import AbilityRotation.Proofs.Token.Partition
import AbilityRotation.Proofs.Token.Tooltips
import AbilityRotation.Proofs.Token.Understood
