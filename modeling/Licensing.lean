import Licensing.Catalog.Load
import Licensing.Expr.Build
import Licensing.Expr.Chain
import Licensing.Expr.Meaning
import Licensing.Expr.Query
import Licensing.Expr.Render
import Licensing.Grammar.Reading
import Licensing.Log.Output
import Licensing.NormalForm.Basic
import Licensing.Parse
import Licensing.Reference
import Licensing.Settings
import Licensing.Version
import Licensing.Proofs.Expr.Buildable
import Licensing.Proofs.Expr.Queries
import Licensing.Proofs.Expr.LeftNested
import Licensing.Proofs.NormalForm.ClauseSets
import Licensing.Proofs.NormalForm.Policy
import Licensing.Proofs.Catalog.Legible
import Licensing.Proofs.Grammar.Acceptance
import Licensing.Proofs.RoundTrip
import Licensing.Proofs.NormalForm.Expansion
import Licensing.Proofs.NormalForm.Stability
import Licensing.Proofs.NormalForm.Congruence
import Licensing.Proofs.NormalForm.Canonical
import Licensing.Descent
import Licensing.Proofs.Catalog.Merging
import Licensing.Proofs.Catalog.Overlay
import Licensing.Proofs.Grammar.Descent
import Licensing.Proofs.Grammar.Mentions
import Licensing.Proofs.Grammar.Safety
import Licensing.Proofs.Catalog.Loaded
import Licensing.Proofs.Grammar.Composition
import Licensing.Proofs.Grammar.Entries
import Licensing.Proofs.Grammar.Events
import Licensing.Proofs.Grammar.Dependence
import Licensing.Proofs.NormalForm.Choices
import Licensing.Proofs.NormalForm.Implication
import Licensing.Proofs.NormalForm.Terms
import Licensing.Proofs.NormalForm.Size
import Licensing.Proofs.NormalForm.Obligations
import Licensing.Proofs.Grammar.DistinctTexts
import Licensing.Proofs.Token.Layout
import Licensing.Proofs.Grammar.Progress
import Licensing.Proofs.Grammar.Layout
import Licensing.Proofs.Text.CaseFold
import Licensing.Proofs.Reference.Split
import Licensing.Proofs.Reference.Target
import Licensing.Proofs.Reference.Folding
import Licensing.Proofs.NormalForm.Deprecation
import Licensing.Proofs.Catalog.Report
import Licensing.Proofs.NormalForm.Foreign
import Licensing.Proofs.Settings.Checks
import Licensing.Proofs.Contents
import Licensing.Proofs.Log.Truncation
import Licensing.Proofs.NormalForm.Walk
