import Depcheck.Main
import Depcheck.Proofs.Except
import Depcheck.Proofs.Version.Text
import Depcheck.Proofs.Version.Order
import Depcheck.Proofs.Text.Ends
import Depcheck.Proofs.Version.Density
import Depcheck.Proofs.Version.Overlap
import Depcheck.Proofs.Version.Reading
import Depcheck.Proofs.Capability.Text
import Depcheck.Proofs.Capability.Reading
import Depcheck.Proofs.Package.States
import Depcheck.Proofs.Index.Membership
import Depcheck.Proofs.Resolution.Matches
import Depcheck.Proofs.Graph.Building
import Depcheck.Proofs.Graph.Taint
import Depcheck.Proofs.Graph.Marking
import Depcheck.Proofs.Verification.Outcomes
import Depcheck.Proofs.Verification.Targets
import Depcheck.Proofs.Verification.Transparency
import Depcheck.Proofs.Verification.RequirementGraph
import Depcheck.Proofs.Verification.EdgeTargets
import Depcheck.Proofs.Verification.Soundness
import Depcheck.Proofs.PackageSet.Reachable
import Depcheck.Proofs.PackageSet.Marks
import Depcheck.Proofs.Graph.Reach
import Depcheck.Proofs.Verification.Problems
import Depcheck.Proofs.Verification.Spread
import Depcheck.Proofs.Index.Buckets
import Depcheck.Proofs.Lists
import Depcheck.Proofs.Graph.Built
import Depcheck.Proofs.Graph.Loops
import Depcheck.Proofs.Resolution.Scan
import Depcheck.Proofs.Graph.Search
import Depcheck.Proofs.Graph.Plans
import Depcheck.Proofs.Graph.Conflicts
import Depcheck.Proofs.Verification.Hits
import Depcheck.Proofs.Sorting
import Depcheck.Proofs.Package.Order
import Depcheck.Proofs.PackageSet.Arrange
import Depcheck.Proofs.Index.FileConflicts
import Depcheck.Proofs.PackageSet.LoadOrder
import Depcheck.Proofs.Checked
import Depcheck.Proofs.Graph.Checked
import Depcheck.Proofs.Graph.Propagation
import Depcheck.Proofs.Graph.Queue
import Depcheck.Proofs.Verification.InRange
import Depcheck.Proofs.Verification.Violations
import Depcheck.Proofs.Verification.Pass
import Depcheck.Proofs.Verification.Checked
import Depcheck.Proofs.PackageSet.Queries
import Depcheck.Proofs.PackageSet.Workspace
import Depcheck.Proofs.PackageSet.InPlace
import Depcheck.Proofs.PackageSet.Operations
import Depcheck.Proofs.Index.Restriction
import Depcheck.Proofs.Verification.Reindexing
import Depcheck.Proofs.PackageSet.FileIndexing
import Depcheck.Proofs.PackageSet.Providers
import Depcheck.Proofs.PackageSet.BuiltIn
import Depcheck.Proofs.Package.Identity
import Depcheck.Proofs.Verification.Diagnostics
import Depcheck.Proofs.PackageSet.Identities
import Depcheck.Proofs.Orders
import Depcheck.Proofs.Verification.Figures
import Depcheck.Proofs.PackageSet.Figures
import Depcheck.Proofs.PackageSet.ErrorCount
import Depcheck.Proofs.PackageSet.ManagerNames
import Depcheck.Proofs.Version.Tokens
import Depcheck.Proofs.Package.Satisfaction
import Depcheck.Proofs.Package.FullName
import Depcheck.Proofs.Verification.ForwardEdges
import Depcheck.Proofs.Graph.Closure
import Depcheck.Proofs.Verification.ReverseEdges
import Depcheck.Proofs.Verification.Obsoletes
import Depcheck.Proofs.Verification.Rerun
import Depcheck.Proofs.Graph.Selection
import Depcheck.Proofs.PackageSet.Selection
import Depcheck.Proofs.Verification.Mercy
import Depcheck.Proofs.Index.SharedFiles
import Depcheck.Proofs.Verification.Intruders
import Depcheck.Proofs.Bisection
import Depcheck.Proofs.Index.Names
import Depcheck.Proofs.Platform
import Depcheck.Proofs.Graph.Calls
import Depcheck.Proofs.Graph.Links
import Depcheck.Proofs.Package.Grouping
import Depcheck.Proofs.Package.FileTable
