import ApiSchema.Main
import ApiSchema.Generic.Marking
import ApiSchema.Proofs.Text.Trim
import ApiSchema.Proofs.Text.Replacement
import ApiSchema.Proofs.TypeExpr.Form
import ApiSchema.Proofs.TypeExpr.Agreement
import ApiSchema.Proofs.TypeExpr.Arguments
import ApiSchema.Proofs.TypeExpr.Layout
import ApiSchema.Proofs.TypeExpr.Grammar
import ApiSchema.Proofs.Generic.Progress
import ApiSchema.Proofs.Generic.Exactness
import ApiSchema.Proofs.Generic.Demand
import ApiSchema.Proofs.Generic.Exploration
import ApiSchema.Proofs.Generic.Memory
import ApiSchema.Proofs.Generic.Order
import ApiSchema.Proofs.Generic.Naming
import ApiSchema.Proofs.Generic.Acceptance
import ApiSchema.Proofs.Document.References
import ApiSchema.Proofs.Document.Substitution
import ApiSchema.Proofs.Document.Failures
import ApiSchema.Proofs.Generic.Respacing
import ApiSchema.Proofs.Document.Idempotence
import ApiSchema.Proofs.Generic.Confinement
import ApiSchema.Proofs.Document.Termination
import ApiSchema.Proofs.TypeExpr.Writing
import ApiSchema.Proofs.TypeExpr.Squeezed
import ApiSchema.Proofs.Generic.Rewriting
import ApiSchema.Proofs.Generic.Lockstep
import ApiSchema.Proofs.Document.Blanks
import ApiSchema.Proofs.Document.Extension
import ApiSchema.Proofs.Generic.Ownership
import ApiSchema.Proofs.Document.Marking
import ApiSchema.Proofs.Decimal.Digits
import ApiSchema.Proofs.Json.Strings
import ApiSchema.Proofs.Decimal.Finite
import ApiSchema.Proofs.Json.Printing
import ApiSchema.Proofs.Decode.Slots
import ApiSchema.Proofs.Document.Encoding
import ApiSchema.Proofs.Document.Facets
import ApiSchema.Proofs.Document.RoundTrip
import ApiSchema.Proofs.Generic.Remarking
import ApiSchema.Proofs.Generic.Simultaneous
import ApiSchema.Proofs.Generic.Declaration
import ApiSchema.Proofs.Generic.EverySpan
import ApiSchema.Proofs.Generic.Hygiene
import ApiSchema.Proofs.TypeExpr.Variants
import ApiSchema.Proofs.Generic.Refusal
import ApiSchema.Proofs.Generic.Errors
import ApiSchema.Proofs.Document.Frame
import ApiSchema.Proofs.TypeExpr.Sources
import ApiSchema.Proofs.Decode.Tables
import ApiSchema.Proofs.Document.Usage
import ApiSchema.Proofs.TypeExpr.Suffixes
import ApiSchema.Proofs.Decode.Parts
import ApiSchema.Proofs.Document.Members
import ApiSchema.Proofs.Document.Presentation
import ApiSchema.Proofs.TypeExpr.Brackets
import ApiSchema.Proofs.Generic.Ledger
import ApiSchema.Proofs.Generic.Occurrences
