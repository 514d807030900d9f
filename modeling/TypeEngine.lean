import TypeEngine.Sorted
import TypeEngine.Table
import TypeEngine.Numeric
import TypeEngine.Directive
import TypeEngine.Attribute
import TypeEngine.Ty.Basic
import TypeEngine.Ty.Equality
import TypeEngine.Ty.Shape
import TypeEngine.Ty.Display
import TypeEngine.Ty.Rule
import TypeEngine.Location
import TypeEngine.LineIndex
import TypeEngine.Text.Replace
import TypeEngine.Text.CodePoints
import TypeEngine.Text.Uppercase
import TypeEngine.Text.Lowercase
import TypeEngine.Text.Alphanumeric
import TypeEngine.Text.Blank
import TypeEngine.Partial
import TypeEngine.Error
import TypeEngine.Naming
import TypeEngine.Outcome
import TypeEngine.Ty.Weight
import TypeEngine.Catalog
import TypeEngine.Registry.Basic
import TypeEngine.Registry.Resolve
import TypeEngine.Solving
import TypeEngine.Unification
import TypeEngine.Substitution
import TypeEngine.Registry.Draft
import TypeEngine.Registry.Builder
import TypeEngine.Registry.Declaration
import TypeEngine.Registry.Prelude
import TypeEngine.Diagnostic
import TypeEngine.Json.Basic
import TypeEngine.Json.Values
import TypeEngine.Json.Ty
import TypeEngine.Proofs.Binds
import TypeEngine.Proofs.Layers
import TypeEngine.Proofs.Walks
import TypeEngine.Proofs.Building
import TypeEngine.Proofs.Canonical
import TypeEngine.Proofs.Descent
import TypeEngine.Proofs.Cycles
import TypeEngine.Proofs.Drafts
import TypeEngine.Proofs.Settling
import TypeEngine.Proofs.WellFormed
import TypeEngine.Proofs.Trails
import TypeEngine.Proofs.Lockstep
import TypeEngine.Proofs.Solutions
import TypeEngine.Proofs.FirstOrder
import TypeEngine.Proofs.Meets
import TypeEngine.Proofs.Preorder
import TypeEngine.Proofs.Dealiasing
import TypeEngine.Proofs.Imports
import TypeEngine.Proofs.UpperBounds
import TypeEngine.Proofs.Erasure
import TypeEngine.Proofs.Obliviousness
import TypeEngine.Proofs.Grounding
import TypeEngine.Proofs.Extensions
import TypeEngine.Proofs.Unrolling
import TypeEngine.Proofs.DirectiveErasure
import TypeEngine.Proofs.Directives
import TypeEngine.Proofs.Substituting
import TypeEngine.Proofs.Scripts
import TypeEngine.Proofs.Remembering
import TypeEngine.Proofs.Filling
import TypeEngine.Proofs.Opening
import TypeEngine.Proofs.Sufficiency
import TypeEngine.Proofs.Acceptance
import TypeEngine.Proofs.Termination
import TypeEngine.Proofs.Coherence
import TypeEngine.Proofs.Closedness
import TypeEngine.Proofs.Assemblies
import TypeEngine.Proofs.KeptNames
import TypeEngine.Proofs.CaseLabels
import TypeEngine.Proofs.Attempts
import TypeEngine.Proofs.Rounds
import TypeEngine.Proofs.Documents
import TypeEngine.Proofs.RoundTrip
import TypeEngine.Proofs.Recursion
import TypeEngine.Proofs.Simultaneous
import TypeEngine.Proofs.Blame
import TypeEngine.Proofs.Absorption
import TypeEngine.Proofs.Idempotence
import TypeEngine.Proofs.Widening
import TypeEngine.Proofs.Accumulation
import TypeEngine.Proofs.TraitMethods
import TypeEngine.Proofs.Offsets
import TypeEngine.Proofs.Messages
import TypeEngine.Proofs.ReportedLines
