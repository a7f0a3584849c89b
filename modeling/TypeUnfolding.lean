import TypeUnfolding.Journal
import TypeUnfolding.Graph.Edit
import TypeUnfolding.Json.Options
import TypeUnfolding.Graph.Codec
import TypeUnfolding.LogStyle
import TypeUnfolding.TypeTree.Codec
import TypeUnfolding.Proofs.FirstVisits
import TypeUnfolding.Proofs.Hoisting
import TypeUnfolding.Proofs.Mentions
import TypeUnfolding.Proofs.Passes
import TypeUnfolding.Proofs.References
import TypeUnfolding.Proofs.Renumbering
import TypeUnfolding.Proofs.CheckedWalk
import TypeUnfolding.Proofs.DepthLimit
import TypeUnfolding.Proofs.OutputModes
import TypeUnfolding.Proofs.RunCalls
import TypeUnfolding.Proofs.FreshStarts
import TypeUnfolding.Proofs.Callables
import TypeUnfolding.Proofs.Construction
import TypeUnfolding.Proofs.RoundTrip
import TypeUnfolding.Proofs.GraphLookups
import TypeUnfolding.Proofs.FileOrder
import TypeUnfolding.Proofs.Completion
import TypeUnfolding.Proofs.Reordering
import TypeUnfolding.Proofs.TreeRoundTrip
import TypeUnfolding.Proofs.TrailHistory
import TypeUnfolding.Proofs.FileListing
import TypeUnfolding.Proofs.Composition
import TypeUnfolding.Proofs.Dates
import TypeUnfolding.Proofs.Merging
import TypeUnfolding.Proofs.CanonicalIntegers
import TypeUnfolding.Proofs.UnambiguousNames
import TypeUnfolding.Proofs.PrintedNumbers
