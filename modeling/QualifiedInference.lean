import QualifiedInference.OrderedMap
import QualifiedInference.Qualifier
import QualifiedInference.Qualifiers
import QualifiedInference.QualifierOrder
import QualifiedInference.Hierarchies
import QualifiedInference.Ty
import QualifiedInference.NominalTypes
import QualifiedInference.Target
import QualifiedInference.BitTrie
import QualifiedInference.TargetMap
import QualifiedInference.Fault
import QualifiedInference.Guard
import QualifiedInference.Answers
import QualifiedInference.Answers.Merge
import QualifiedInference.Relations
import QualifiedInference.Store
import QualifiedInference.Strategy
import QualifiedInference.Strategy.Equalities
import QualifiedInference.Strategy.Bounds
import QualifiedInference.Inference
import QualifiedInference.Json.Value
import QualifiedInference.TargetNames
import QualifiedInference.Report
import QualifiedInference.Json.Node
import QualifiedInference.Json.Front
import QualifiedInference.Json.Numeral
import QualifiedInference.Json.Reader
import QualifiedInference.Text.Invisible
import QualifiedInference.Text.Quoted
import QualifiedInference.Decimal
import QualifiedInference.Json.Decoding
import QualifiedInference.Scenario
import QualifiedInference.Scenario.Reader
import QualifiedInference.Strategy.BuiltIn
import QualifiedInference.Problem
import QualifiedInference.Run
import QualifiedInference.LogFormat
import QualifiedInference.CommandLine
import QualifiedInference.Program
import QualifiedInference.Main
import QualifiedInference.Proofs.Base.Option
import QualifiedInference.Proofs.Base.Except
import QualifiedInference.Proofs.Base.List
import QualifiedInference.Proofs.Maps
import QualifiedInference.Proofs.Equivalence
import QualifiedInference.Proofs.Guard
import QualifiedInference.Proofs.Answers.Collapse
import QualifiedInference.Proofs.Answers.Chains
import QualifiedInference.Proofs.Answers.Passes
import QualifiedInference.Proofs.Answers.Descent
import QualifiedInference.Proofs.Answers.Merge
import QualifiedInference.Proofs.Answers.Overtaking
import QualifiedInference.Proofs.Answers.Unlimited
import QualifiedInference.Proofs.Answers.Reordering
import QualifiedInference.Proofs.Answers.OwnChains
import QualifiedInference.Proofs.Fallback
import QualifiedInference.Proofs.Qualifiers
import QualifiedInference.Proofs.Answers.Layers
import QualifiedInference.Proofs.Recording
import QualifiedInference.Proofs.Enrichment
import QualifiedInference.Proofs.Equalities
import QualifiedInference.Proofs.Equalities.Evidence
import QualifiedInference.Proofs.Equalities.Reach
import QualifiedInference.Proofs.Answers.Within
import QualifiedInference.Proofs.Inference
import QualifiedInference.Proofs.NominalTypes
import QualifiedInference.Proofs.Declarations
import QualifiedInference.Proofs.Bounds.Attempt
import QualifiedInference.Proofs.Bounds.Solution
import QualifiedInference.Proofs.Bounds.Waiting
import QualifiedInference.Proofs.Bounds.Acyclic
import QualifiedInference.Proofs.Bounds.DeclarationOrder
import QualifiedInference.Proofs.Bounds.Combination
import QualifiedInference.Proofs.Bounds.Coherence
import QualifiedInference.Proofs.Bounds.RecordingOrder
import QualifiedInference.Proofs.Bounds.Source
import QualifiedInference.Proofs.Bounds.Vain
import QualifiedInference.Proofs.Bounds.Course
import QualifiedInference.Proofs.Bounds.Enclosure
import QualifiedInference.Proofs.Bounds.Extremes
import QualifiedInference.Proofs.WellFormed.Types
import QualifiedInference.Proofs.WellFormed.Problem
import QualifiedInference.Proofs.WellFormed.Report
import QualifiedInference.Proofs.Restriction
import QualifiedInference.Proofs.Answers.Idempotence
import QualifiedInference.Proofs.Answers.Restriction
import QualifiedInference.Proofs.Separation.Solving
import QualifiedInference.Proofs.Separation.Equalities
import QualifiedInference.Proofs.Separation.Bounds
import QualifiedInference.Proofs.Separation.Inference
import QualifiedInference.Proofs.Unrelated
import QualifiedInference.Proofs.Noninterference.Types
import QualifiedInference.Proofs.Noninterference.Runs
import QualifiedInference.Proofs.Noninterference.Records
import QualifiedInference.Proofs.Noninterference.Replacement
import QualifiedInference.Proofs.Frame
import QualifiedInference.Proofs.Validation.Registration
import QualifiedInference.Proofs.Registry
import QualifiedInference.Proofs.Validation.Validity
import QualifiedInference.Proofs.Validation.Acceptance
import QualifiedInference.Proofs.Branches.Contents
import QualifiedInference.Proofs.Branches.Workspace
import QualifiedInference.Proofs.Branches.Isolation
import QualifiedInference.Proofs.Accumulation
import QualifiedInference.Proofs.Json.Reading
import QualifiedInference.Proofs.Json.Leaves
import QualifiedInference.Proofs.Json.Grammar
import QualifiedInference.Proofs.Json.Records
import QualifiedInference.Proofs.Scenario.Forms
import QualifiedInference.Proofs.Scenario.Parsing
import QualifiedInference.Proofs.Checked.Solving
import QualifiedInference.Proofs.Checked.Strategies
import QualifiedInference.Proofs.Checked.Run
import QualifiedInference.Proofs.Guard.History
import QualifiedInference.Proofs.Answers.Visits
import QualifiedInference.Proofs.Qualifiers.Refinement
import QualifiedInference.Proofs.Report
