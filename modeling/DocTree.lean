import DocTree.Store.Field
import DocTree.Main
import DocTree.Proofs.Resolve.Aliases
import DocTree.Proofs.Resolve.Idempotence
import DocTree.Proofs.Resolve.Failure
import DocTree.Proofs.Output.Closed
import DocTree.Proofs.Workspace.Operations
import DocTree.Proofs.Document.Copy
import DocTree.Proofs.Document.Programs
import DocTree.Proofs.Resolve.Bindings
import DocTree.Proofs.Output.References
import DocTree.Proofs.Renumber.Search
import DocTree.Proofs.Renumber.Convert
import DocTree.Proofs.Renumber.Resolve
import DocTree.Proofs.Renumber.Contents
import DocTree.Proofs.Output.Relabel
import DocTree.Proofs.Renumber.Output
import DocTree.Proofs.Renumber.Blocks
import DocTree.Proofs.Document.Declare
import DocTree.Proofs.Document.Entries
import DocTree.Proofs.Renumber.Programs
import DocTree.Proofs.Renumber.Order
import DocTree.Proofs.Faithful.Forms
import DocTree.Proofs.Faithful.Contents
import DocTree.Proofs.Faithful.Types
import DocTree.Proofs.Faithful.Describe
import DocTree.Proofs.Faithful.Mentions
import DocTree.Proofs.Faithful.Exports
import DocTree.Proofs.Faithful.Loaded
import DocTree.Proofs.Faithful.Output
import DocTree.Proofs.Resolve.Check
import DocTree.Proofs.Resolve.Accounts
import DocTree.Proofs.Convert.Observed
import DocTree.Proofs.Resolve.Observed
import DocTree.Proofs.Document.Provenance
import DocTree.Proofs.Document.Shape
import DocTree.Proofs.Document.Accepts
import DocTree.Proofs.Document.Acceptance
import DocTree.Proofs.Resolve.Supervised
import DocTree.Proofs.Store.Discovery
import DocTree.Proofs.Convert.Members
import DocTree.Proofs.Workspace.Removal
import DocTree.Proofs.TypeExpr.RoundTrip
import DocTree.Proofs.Output.Injective
import DocTree.Proofs.Resolve.Opaque
import DocTree.Proofs.TypeExpr.Compositional
import DocTree.Proofs.TypeExpr.Tree
import DocTree.Proofs.TypeExpr.Pairing
import DocTree.Proofs.TypeExpr.Visit
import DocTree.Proofs.TypeExpr.Assembled
import DocTree.Proofs.TypeExpr.Positions
import DocTree.Proofs.TypeExpr.Numbering
import DocTree.Proofs.TypeExpr.Accounted
import DocTree.Proofs.Store.Naming
import DocTree.Proofs.Workspace.FullNames
