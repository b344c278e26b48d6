import PkgConfig.FileTree
import PkgConfig.Main
import PkgConfig.Proofs.DepthLimit
import PkgConfig.Proofs.FileGrammar
import PkgConfig.Proofs.LinkOrder
import PkgConfig.Proofs.Openings
import PkgConfig.Proofs.Placement
import PkgConfig.Proofs.Substitution
import PkgConfig.Proofs.WordSplitting
import PkgConfig.Proofs.ArgumentSplitting
import PkgConfig.Proofs.Consistency
import PkgConfig.Proofs.Constraint
import PkgConfig.Proofs.LoadingErrors
import PkgConfig.Proofs.Mismatch
import PkgConfig.Proofs.SystemDirectories
import PkgConfig.Proofs.SmallerBudget
import PkgConfig.Proofs.Accounting
import PkgConfig.Proofs.Survivors
import PkgConfig.Proofs.Switching
import PkgConfig.Proofs.Visibility
import PkgConfig.Proofs.ReadingBack
import PkgConfig.Proofs.Filtering
import PkgConfig.Proofs.Printing
import PkgConfig.Proofs.Suppression
import PkgConfig.Proofs.PlacedPaths
import PkgConfig.Proofs.DottedVersions
import PkgConfig.Proofs.VersionBytes
import PkgConfig.Proofs.Occurrences
import PkgConfig.Proofs.CircularReferences
import PkgConfig.Proofs.ExpansionOrder
import PkgConfig.Proofs.Continuation
import PkgConfig.Proofs.CarriageReturns
import PkgConfig.Proofs.NamedPackages
import PkgConfig.Proofs.Listing
import PkgConfig.Proofs.SiblingRequirement
import PkgConfig.Proofs.ConfiguredDirectories
import PkgConfig.Proofs.Shadowing
import PkgConfig.Proofs.NamingAgain
import PkgConfig.Proofs.VariableQueries
import PkgConfig.Proofs.LastSelection
import PkgConfig.Proofs.EncodedPaths
import PkgConfig.Proofs.FirstWord
import PkgConfig.Proofs.SaturatingNumbers
import PkgConfig.Proofs.SearchOrder
import PkgConfig.Proofs.Releases
