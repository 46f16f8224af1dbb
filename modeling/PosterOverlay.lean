import PosterOverlay.Main
import PosterOverlay.Session
import PosterOverlay.Proofs.Fields
import PosterOverlay.Proofs.Placeholder.Iteration
import PosterOverlay.Proofs.Placeholder.Nesting
import PosterOverlay.Proofs.Overlay.Structured
import PosterOverlay.Proofs.Overlay.WellFormed
import PosterOverlay.Proofs.Session.Libraries
import PosterOverlay.Proofs.Template.Growth
import PosterOverlay.Proofs.Template.Precedence
import PosterOverlay.Proofs.Value.Distinct
import PosterOverlay.Proofs.Value.Reordering
import PosterOverlay.Proofs.Document.Layers
import PosterOverlay.Proofs.Template.Fallback
import PosterOverlay.Proofs.Document.Entries
import PosterOverlay.Proofs.Placeholder.Standstill
import PosterOverlay.Proofs.Template.Settling
import PosterOverlay.Proofs.Overlay.Composition
import PosterOverlay.Proofs.Overlay.Preview
import PosterOverlay.Proofs.Template.FirstMatch
import PosterOverlay.Proofs.Value.Matching
import PosterOverlay.Proofs.Placeholder.Chain
import PosterOverlay.Proofs.Template.Suffix
import PosterOverlay.Proofs.Document.Shorthand
import PosterOverlay.Proofs.Template.Renaming
import PosterOverlay.Proofs.Json.Identity
import PosterOverlay.Proofs.CommandLine.Variables
