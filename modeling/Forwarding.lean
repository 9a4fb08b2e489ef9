import Forwarding.CommandLine
import Forwarding.Config.Decoding
import Forwarding.Expansion
import Forwarding.Files.Workspace
import Forwarding.Main
import Forwarding.Proofs.Substitution
import Forwarding.Proofs.Agreement
import Forwarding.Proofs.Lifetimes
import Forwarding.Proofs.Calls
import Forwarding.Proofs.Winners
import Forwarding.Proofs.UnitOrder
import Forwarding.Proofs.Contents
import Forwarding.Proofs.Phases
import Forwarding.Proofs.Loops
import Forwarding.Proofs.Directories
import Forwarding.Proofs.Destinations
import Forwarding.Proofs.Replacement
import Forwarding.Proofs.Writing
import Forwarding.Proofs.Accessors
import Forwarding.Proofs.ArtifactNames
import Forwarding.Proofs.DeclaredNames
import Forwarding.Proofs.Emission
import Forwarding.Proofs.Discovering
import Forwarding.Proofs.Expanding
import Forwarding.Proofs.ParsedArtifacts
import Forwarding.Proofs.Independence
import Forwarding.Proofs.IndexFile
import Forwarding.Proofs.Neighbours
import Forwarding.Proofs.OwnType
import Forwarding.Proofs.Parameters
import Forwarding.Proofs.Conflicts
import Forwarding.Proofs.Fitting
import Forwarding.Proofs.Interchange
import Forwarding.Proofs.Sizedness
import Forwarding.Proofs.Results
import Forwarding.Proofs.FoldedBounds
import Forwarding.Proofs.SpellingInvariance
import Forwarding.Proofs.Relevance
import Forwarding.Proofs.Covering
import Forwarding.Proofs.Annotations
import Forwarding.Proofs.Listing
import Forwarding.Proofs.Inclusions
import Forwarding.Proofs.RootTexts
import Forwarding.Proofs.Mounting
import Forwarding.Proofs.Lookups
import Forwarding.Proofs.FirstLiteral
import Forwarding.Proofs.Hygiene
