import ConstraintCompiler.Channel
import ConstraintCompiler.Connective
import ConstraintCompiler.Declaration
import ConstraintCompiler.Declaration.Compile
import ConstraintCompiler.Declaration.Plan
import ConstraintCompiler.Declaration.Steps
import ConstraintCompiler.Declaration.Truth
import ConstraintCompiler.Error
import ConstraintCompiler.Event
import ConstraintCompiler.Expression
import ConstraintCompiler.Expression.Build
import ConstraintCompiler.Expression.Evaluation
import ConstraintCompiler.IntSet
import ConstraintCompiler.Model
import ConstraintCompiler.Model.Access
import ConstraintCompiler.Model.Definition
import ConstraintCompiler.Model.Settings
import ConstraintCompiler.Posting
import ConstraintCompiler.Posting.Shape
import ConstraintCompiler.Posting.Verdict
import ConstraintCompiler.Primitive
import ConstraintCompiler.Problem
import ConstraintCompiler.Proofs.Acceptance
import ConstraintCompiler.Proofs.Arrays
import ConstraintCompiler.Proofs.Atomicity
import ConstraintCompiler.Proofs.Bounds
import ConstraintCompiler.Proofs.ChannelExchange
import ConstraintCompiler.Proofs.Channels
import ConstraintCompiler.Proofs.Comparison
import ConstraintCompiler.Proofs.Compilation
import ConstraintCompiler.Proofs.Complement
import ConstraintCompiler.Proofs.Completeness
import ConstraintCompiler.Proofs.Completion
import ConstraintCompiler.Proofs.Conditions
import ConstraintCompiler.Proofs.Continuation
import ConstraintCompiler.Proofs.Counting
import ConstraintCompiler.Proofs.Decision
import ConstraintCompiler.Proofs.Declarations
import ConstraintCompiler.Proofs.DomainLimit
import ConstraintCompiler.Proofs.EarlyVerdicts
import ConstraintCompiler.Proofs.Emission
import ConstraintCompiler.Proofs.Enumeration
import ConstraintCompiler.Proofs.Evaluation
import ConstraintCompiler.Proofs.Exactness
import ConstraintCompiler.Proofs.Exchange
import ConstraintCompiler.Proofs.Exploration
import ConstraintCompiler.Proofs.Flattening
import ConstraintCompiler.Proofs.Footprint
import ConstraintCompiler.Proofs.Fusion
import ConstraintCompiler.Proofs.Growth
import ConstraintCompiler.Proofs.Kinds
import ConstraintCompiler.Proofs.Layout
import ConstraintCompiler.Proofs.Limits
import ConstraintCompiler.Proofs.Listing
import ConstraintCompiler.Proofs.Locality
import ConstraintCompiler.Proofs.Machine
import ConstraintCompiler.Proofs.Materialization
import ConstraintCompiler.Proofs.Misfits
import ConstraintCompiler.Proofs.Planning
import ConstraintCompiler.Proofs.PostingOrder
import ConstraintCompiler.Proofs.Processing
import ConstraintCompiler.Proofs.Queueing
import ConstraintCompiler.Proofs.Reading
import ConstraintCompiler.Proofs.Recording
import ConstraintCompiler.Proofs.Refusals
import ConstraintCompiler.Proofs.Reification
import ConstraintCompiler.Proofs.Relations
import ConstraintCompiler.Proofs.Representation
import ConstraintCompiler.Proofs.Resolution
import ConstraintCompiler.Proofs.Restatement
import ConstraintCompiler.Proofs.Runs
import ConstraintCompiler.Proofs.Safety
import ConstraintCompiler.Proofs.Satisfaction
import ConstraintCompiler.Proofs.Selections
import ConstraintCompiler.Proofs.Session
import ConstraintCompiler.Proofs.Simulation
import ConstraintCompiler.Proofs.Soundness
import ConstraintCompiler.Proofs.Statements
import ConstraintCompiler.Proofs.Summation
import ConstraintCompiler.Proofs.Trees
import ConstraintCompiler.Proofs.ValueOrder
import ConstraintCompiler.Relation
import ConstraintCompiler.Representable
import ConstraintCompiler.Search
import ConstraintCompiler.Search.Candidates
import ConstraintCompiler.Search.Outcome
import ConstraintCompiler.Search.Settings
import ConstraintCompiler.Value
import ConstraintCompiler.Variable
